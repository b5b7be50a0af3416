import Depot.Proofs.Transfer

/-!
This module contains the course of copies: how far a copy gets in its source before the source ends
or fails or the sink refuses a piece, what it comes to then, and what the sink holds.
-/

namespace Depot

open Codec

namespace Codec

def feedOne (fed : Encoder × List ByteArray) (chunk : ByteArray) : Encoder × List ByteArray :=
  ((fed.1.feed chunk).1, fed.2 ++ (fed.1.feed chunk).2)

def fed (scheme : Scheme) (chunks : List ByteArray) : Encoder × List ByteArray :=
  chunks.foldl feedOne (Encoder.start scheme)

theorem fed_concat (scheme : Scheme) (chunks : List ByteArray) (chunk : ByteArray) :
    fed scheme (chunks ++ [chunk]) = feedOne (fed scheme chunks) chunk :=
  List.foldl_append

theorem foldl_feedOne_none (before chunks : List ByteArray) :
    chunks.foldl feedOne (.none, before) = (.none, before ++ chunks) := by
  induction chunks generalizing before with
  | nil => rw [List.append_nil, List.foldl_nil]
  | cons chunk chunks ih =>
    have hone : feedOne (.none, before) chunk = (.none, before ++ [chunk]) := rfl
    rw [List.foldl_cons, hone, ih, List.append_assoc, List.singleton_append]

theorem fed_none (chunks : List ByteArray) : fed .none chunks = (.none, chunks) :=
  foldl_feedOne_none [] chunks

end Codec

section Copies

variable {scheme : Scheme} {sink : Sink} {chunks : List ByteArray} {source rest : Source}

inductive Source.Over : Source → Source → Prop where
  | spent : Over [] []
  | blank {bytes : ByteArray} {rest : Source} (h : bytes.size = 0) :
      Over (.chunk bytes :: rest) rest

/--
How a copy ends that has passed on some chunks, by what is behind these in the source: what it comes
to, how often it has read, and what it leaves of the source.
-/
inductive Ends (scheme : Scheme) (sink : Sink) (chunks : List ByteArray) :
    Source → Except Failure Nat → Nat → Source → Prop where
  /-- The sink refuses what comes before all data, and nothing is read. -/
  | unstarted {source : Source} {n : Nat} {failure : Failure} (hchunks : chunks = [])
      (hn : n < (Encoder.start scheme).2.length) (h : sink.Balks n failure) :
      Ends scheme sink chunks source (.error failure) 0 source
  | finished {tail rest : Source} (hover : tail.Over rest)
      (h : sink.Takes ((fed scheme chunks).2.length + (fed scheme chunks).1.finish.length)) :
      Ends scheme sink chunks tail (.ok (joined chunks).size) (chunks.length + 1) rest
  | unfinished {tail rest : Source} {n : Nat} {failure : Failure} (hover : tail.Over rest)
      (hn : n < (fed scheme chunks).1.finish.length)
      (h : sink.Balks ((fed scheme chunks).2.length + n) failure) :
      Ends scheme sink chunks tail (.error failure) (chunks.length + 1) rest
  | unread {rest : Source} {failure : Failure} (h : sink.Takes (fed scheme chunks).2.length) :
      Ends scheme sink chunks (.failed failure :: rest) (.error failure) (chunks.length + 1) rest
  | unwritten {bytes : ByteArray} {rest : Source} {n : Nat} {failure : Failure}
      (hbytes : bytes.size ≠ 0) (hn : n < ((fed scheme chunks).1.feed bytes).2.length)
      (h : sink.Balks ((fed scheme chunks).2.length + n) failure) :
      Ends scheme sink chunks (.chunk bytes :: rest) (.error failure) (chunks.length + 1) rest

structure Course (source : Source) (sink : Sink) (scheme : Scheme) (chunks : List ByteArray)
    (copied : Copied) : Prop where
  nonempty : ∀ chunk ∈ chunks, chunk.size ≠ 0
  ends : ∃ tail, source = chunks.map .chunk ++ tail
    ∧ Ends scheme sink chunks tail copied.outcome copied.requests.length copied.rest
  requests_eq : copied.requests = List.replicate copied.requests.length copyChunk
  closed_eq : copied.sink.closed = sink.closed
  bytes_eq : scheme = .none → copied.sink.bytes = sink.bytes ++ joined chunks

def Copied.behind (reads : Nat) (copied : Copied) : Copied :=
  { copied with requests := List.replicate reads copyChunk ++ copied.requests }

theorem Copied.behind_succ (reads : Nat) (copied : Copied) :
    copied.behind (reads + 1)
      =
    Copied.behind reads { copied with requests := copyChunk :: copied.requests } := by
  simp [behind, List.replicate_succ']

theorem Course.of_ends (hchunks : ∀ chunk ∈ chunks, chunk.size ≠ 0) {tail : Source}
    {outcome : Except Failure Nat} {sink' : Sink}
    (hends : Ends scheme sink chunks tail outcome (chunks.length + 1) rest)
    (hclosed : sink'.closed = sink.closed)
    (hbytes : scheme = .none → sink'.bytes = sink.bytes ++ joined chunks) :
    Course (chunks.map .chunk ++ tail) sink scheme chunks
      (Copied.behind chunks.length ⟨outcome, sink', [copyChunk], rest⟩) where
  nonempty := hchunks
  ends := by
    refine ⟨tail, rfl, ?_⟩
    simpa [Copied.behind] using hends
  requests_eq := by simp [Copied.behind, List.replicate_succ']
  closed_eq := hclosed
  bytes_eq := hbytes

theorem bytes_holding_fed (hnone : scheme = .none) :
    (sink.holding (fed scheme chunks).2).bytes = sink.bytes ++ joined chunks := by
  rw [hnone, Sink.bytes_holding, fed_none]

theorem bytes_of_cut {sink' : Sink} {pieces : List ByteArray} {n : Nat} (hn : n < pieces.length)
    (h : sink'.bytes = (sink.holding (fed scheme chunks).2).bytes ++ joined (pieces.take n))
    (hlength : scheme = .none → pieces.length ≤ 1) (hnone : scheme = .none) :
    sink'.bytes = sink.bytes ++ joined chunks := by
  have hzero : n = 0 := by
    have hone := hlength hnone
    omega
  rw [h, hzero, List.take_zero, joined_nil, ByteArray.append_empty, bytes_holding_fed hnone]

theorem course_close (hchunks : ∀ chunk ∈ chunks, chunk.size ≠ 0)
    (htakes : sink.Takes (fed scheme chunks).2.length) {tail : Source} (hover : tail.Over rest) :
    Course (chunks.map .chunk ++ tail) sink scheme chunks
      ((copyFrom.close rest (fed scheme chunks).1 (sink.holding (fed scheme chunks).2)
        (joined chunks).size).behind chunks.length) := by
  have hfinish : scheme = .none → (fed scheme chunks).1.finish = [] := by
    intro hnone
    rw [hnone, fed_none]
    rfl
  have hwrote := Sink.wrote_writeAll (sink.holding (fed scheme chunks).2) (fed scheme chunks).1.finish
  unfold copyFrom.close
  generalize (sink.holding (fed scheme chunks).2).writeAll (fed scheme chunks).1.finish = written
    at hwrote ⊢
  cases hwrote with
  | whole hmore =>
    refine .of_ends hchunks (.finished hover (htakes.append hmore)) rfl ?_
    intro hnone
    rw [hfinish hnone, Sink.holding_nil, bytes_holding_fed hnone]
  | cut hn hbalks hclosed hbytes =>
    refine .of_ends hchunks (.unfinished hover hn (hbalks.append htakes)) hclosed
      (bytes_of_cut hn hbytes ?_)
    intro hnone
    rw [hfinish hnone]
    exact Nat.zero_le 1

theorem size_joined_concat (chunks : List ByteArray) (chunk : ByteArray) :
    (joined (chunks ++ [chunk])).size = (joined chunks).size + chunk.size := by
  rw [joined_append, joined_cons, joined_nil, ByteArray.append_empty, ByteArray.size_append]

theorem exists_course_from (hchunks : ∀ chunk ∈ chunks, chunk.size ≠ 0)
    (htakes : sink.Takes (fed scheme chunks).2.length) (source : Source) :
    ∃ all, Course (chunks.map .chunk ++ source) sink scheme all
      ((copyFrom (fed scheme chunks).1 (sink.holding (fed scheme chunks).2) (joined chunks).size
        source).behind chunks.length) := by
  -- What was passed on so far grows with every chunk that is read.
  induction source generalizing chunks with
  | nil => exact ⟨chunks, course_close hchunks htakes .spent⟩
  | cons pull rest ih =>
    cases pull with
    | failed failure => exact ⟨chunks, .of_ends hchunks (.unread htakes) rfl bytes_holding_fed⟩
    | chunk bytes =>
      rw [copyFrom]
      by_cases hsize : bytes.size = 0
      · rw [if_pos hsize]
        exact ⟨chunks, course_close hchunks htakes (.blank hsize)⟩
      · rw [if_neg hsize]
        have hfeed : scheme = .none → ((fed scheme chunks).1.feed bytes).2.length ≤ 1 := by
          intro hnone
          rw [hnone, fed_none]
          exact Nat.le_refl 1
        have hwrote := Sink.wrote_writeAll (sink.holding (fed scheme chunks).2)
          ((fed scheme chunks).1.feed bytes).2
        dsimp only
        generalize (sink.holding (fed scheme chunks).2).writeAll
          ((fed scheme chunks).1.feed bytes).2 = written at hwrote ⊢
        cases hwrote with
        | cut hn hbalks hclosed hbytes =>
          exact ⟨chunks, .of_ends hchunks (.unwritten hsize hn (hbalks.append htakes)) hclosed
            (bytes_of_cut hn hbytes hfeed)⟩
        | whole hmore =>
          have hall : ∀ chunk ∈ chunks ++ [bytes], chunk.size ≠ 0 := by
            rw [List.forall_mem_append, List.forall_mem_singleton]
            exact ⟨hchunks, hsize⟩
          have hnext := htakes.append hmore
          rw [← List.length_append] at hnext
          rw [Sink.holding_holding]
          obtain ⟨all, hcourse⟩ := ih hall (by rw [fed_concat]; exact hnext)
          rw [fed_concat, size_joined_concat, List.map_append, List.append_assoc, List.length_append,
            List.length_singleton, Copied.behind_succ] at hcourse
          exact ⟨all, hcourse⟩

/--
Every copy has a course. It asks for as much each time and reads no further than to where the source
ends or fails or the sink refuses a piece, gives that failure as it is, and leaves the sink open, with
exactly the chunks in it that were passed on if they are not compressed.
-/
theorem copy_has_course (source : Source) (sink : Sink) (scheme : Scheme) :
    ∃ chunks, Course source sink scheme chunks (compressedCopy source sink scheme) := by
  have hwrote := sink.wrote_writeAll (Encoder.start scheme).2
  unfold compressedCopy
  dsimp only
  generalize sink.writeAll (Encoder.start scheme).2 = written at hwrote ⊢
  cases hwrote with
  | whole htakes => exact exists_course_from (List.forall_mem_nil _) htakes source
  | cut hn hbalks hclosed hbytes =>
    refine ⟨[], List.forall_mem_nil _, ⟨source, rfl, .unstarted rfl hn hbalks⟩, rfl, hclosed, ?_⟩
    rintro rfl
    exact absurd hn (Nat.not_lt_zero _)

end Copies

end Depot
