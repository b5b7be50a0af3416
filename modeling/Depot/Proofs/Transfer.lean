import Depot.Proofs.Codec.Body
import Depot.Proofs.Transfer.Sink

/-!
This module contains the theory of copies: what a source holds, and that a copy of it into a sink
reads back as exactly that under every scheme.
-/

namespace Depot

namespace Codec

def encoded (scheme : Scheme) (chunks : List ByteArray) : ByteArray :=
  joined (Encoder.start scheme).2 ++ (Encoder.start scheme).1.emit chunks

def Scheme.Decodes (scheme : Scheme) (raw body : ByteArray) : Prop :=
  (Body.ofBytes scheme raw).readAll.1 = .ok body

theorem decodes_none_iff {raw body : ByteArray} : Scheme.none.Decodes raw body ↔ raw = body := by
  simp [Scheme.Decodes, Body.ofBytes, Body.readAll]

theorem Encoder.emit_none (chunks : List ByteArray) : Encoder.none.emit chunks = joined chunks := by
  induction chunks with
  | nil => rfl
  | cons chunk chunks ih =>
    simp only [emit, feed, joined_cons, joined_nil, ByteArray.append_empty, ih]

theorem holds_encoded (scheme : Scheme) (chunks : List ByteArray) :
    (Body.ofBytes scheme (encoded scheme chunks)).Holds (joined chunks) := by
  cases scheme with
  | none =>
    simp [encoded, Encoder.start, Encoder.emit_none, Body.ofBytes, Body.Holds]
  | gzip =>
    have hdecode := Gzip.decode_member chunks
    change (Gzip.decode (encoded .gzip chunks)).Intact ∧ Buffered.rest ⟨.empty, _⟩ = _
    unfold Gzip.member at hdecode
    unfold encoded
    simp only [Encoder.start, hdecode]
    exact ⟨Tape.intact_push Tape.intact_end _, by simp [Buffered.rest, Tape.push, Tape.rest_zero,
      Tape.blank]⟩
  | zstd =>
    have hdecode := Zstd.decode_frame chunks
    unfold Zstd.frame at hdecode
    change (Zstd.decode (encoded .zstd chunks)).Intact ∧ Tape.rest _ = _
    unfold encoded
    simp only [Encoder.start, joined_nil, ByteArray.empty_append, hdecode]
    split
    next hzero => exact ⟨Tape.intact_end, (ByteArray.size_eq_zero_iff.1 hzero).symm⟩
    next =>
      exact ⟨Tape.intact_push Tape.intact_end _, by simp [Tape.push, Tape.rest_zero, Tape.blank]⟩

theorem decodes_encoded (scheme : Scheme) (chunks : List ByteArray) :
    scheme.Decodes (encoded scheme chunks) (joined chunks) := by
  obtain ⟨body', hread, -⟩ := (holds_encoded scheme chunks).readAll
  unfold Scheme.Decodes
  rw [hread]

end Codec

open Codec

namespace Source

def chunksRead : Source → Except Failure (List ByteArray)
  | [] => .ok []
  | .failed failure :: _ => .error failure
  | .chunk bytes :: rest =>
    if bytes.size = 0 then .ok [] else (chunksRead rest).map (bytes :: ·)

def content (source : Source) : Except Failure ByteArray :=
  source.chunksRead.map joined

theorem content_eq_ok {source : Source} {body : ByteArray} :
    source.content = .ok body ↔ ∃ chunks, source.chunksRead = .ok chunks ∧ joined chunks = body := by
  unfold content
  cases source.chunksRead with
  | error failure => simp [Except.map]
  | ok chunks => simp [Except.map]

theorem chunksRead_chunk {bytes : ByteArray} (h : bytes.size ≠ 0) (rest : Source) :
    chunksRead (.chunk bytes :: rest) = (chunksRead rest).map (bytes :: ·) := by
  rw [chunksRead, if_neg h]

theorem chunksRead_chunks {pieces : List ByteArray} (h : ∀ piece ∈ pieces, piece.size ≠ 0) :
    chunksRead (pieces.map .chunk) = .ok pieces := by
  induction pieces with
  | nil => rfl
  | cons piece pieces ih =>
    rw [List.forall_mem_cons] at h
    rw [List.map_cons, chunksRead_chunk h.1, ih h.2]
    rfl

theorem joined_chunksFrom (bytes : ByteArray) {size : Nat} (hsize : size ≠ 0) (left pos : Nat)
    (h : bytes.size ≤ pos + left) :
    joined (chunksFrom bytes size left pos) = bytes.extract pos bytes.size := by
  induction left generalizing pos with
  | zero =>
    rw [chunksFrom, joined_nil, eq_comm, ByteArray.extract_eq_empty_iff]
    omega
  | succ left ih =>
    rw [chunksFrom]
    split
    · rw [joined_nil, eq_comm, ByteArray.extract_eq_empty_iff]
      omega
    · rw [joined_cons, ih _ (by omega), extract_append_rest]

theorem size_ne_zero_of_mem_chunksFrom (bytes : ByteArray) {size : Nat} (hsize : size ≠ 0)
    (left pos : Nat) : ∀ piece ∈ chunksFrom bytes size left pos, piece.size ≠ 0 := by
  induction left generalizing pos with
  | zero => simp [chunksFrom]
  | succ left ih =>
    rw [chunksFrom]
    split
    · simp
    · rw [List.forall_mem_cons]
      refine ⟨?_, ih _⟩
      rw [ByteArray.size_extract]
      omega

@[simp]
theorem content_ofBytes (bytes : ByteArray) : (ofBytes bytes).content = .ok bytes := by
  have hsize : copyChunk ≠ 0 := by decide
  unfold content ofBytes chunks
  rw [if_neg hsize, chunksRead_chunks (size_ne_zero_of_mem_chunksFrom bytes hsize _ _)]
  change Except.ok (joined (chunksFrom bytes copyChunk bytes.size 0)) = .ok bytes
  rw [joined_chunksFrom bytes hsize _ _ (by omega), ByteArray.extract_zero_size]

end Source

namespace Sink

structure Accepts (sink : Sink) : Prop where
  open' : sink.closed = false
  willing : ∀ n, sink.refuses n = none

theorem accepts_new : Accepts {} :=
  ⟨rfl, fun _ => rfl⟩

theorem bytes_new : bytes {} = .empty := rfl

theorem bytes_close (sink : Sink) : sink.close.bytes = sink.bytes := rfl

theorem writeAll_of_accepts {sink : Sink} (h : sink.Accepts) (pieces : List ByteArray) :
    ∃ sink', sink.writeAll pieces = (.ok (), sink') ∧ sink'.Accepts
      ∧ sink'.bytes = sink.bytes ++ joined pieces := by
  have hwrote := sink.wrote_writeAll pieces
  generalize sink.writeAll pieces = written at hwrote ⊢
  cases hwrote with
  | whole => exact ⟨_, rfl, ⟨h.open', h.willing⟩, bytes_holding sink pieces⟩
  | cut hn hbalks =>
    have hrefuses := hbalks.refuses
    simp [refusal?, h.open', h.willing] at hrefuses

end Sink

theorem copyFrom_close {sink : Sink} (h : sink.Accepts) (rest : Source) (encoder : Encoder)
    (total : Nat) :
    (copyFrom.close rest encoder sink total).outcome = .ok total
      ∧ (copyFrom.close rest encoder sink total).sink.Accepts
      ∧ (copyFrom.close rest encoder sink total).sink.bytes
          = sink.bytes ++ joined encoder.finish := by
  obtain ⟨sink', hall, haccepts, hbytes⟩ := Sink.writeAll_of_accepts h encoder.finish
  unfold copyFrom.close
  rw [hall]
  exact ⟨rfl, haccepts, hbytes⟩

theorem copyFrom_of_error {sink : Sink} (h : sink.Accepts) (encoder : Encoder) (total : Nat)
    {source : Source} {failure : Failure} (hread : source.chunksRead = .error failure) :
    (copyFrom encoder sink total source).outcome = .error failure := by
  induction source generalizing sink encoder total with
  | nil => cases hread
  | cons pull rest ih =>
    cases pull with
    | failed other =>
      cases hread
      rfl
    | chunk bytes =>
      rw [Source.chunksRead] at hread
      rw [copyFrom]
      split at hread
      · cases hread
      next hsize =>
        rw [if_neg hsize]
        obtain ⟨sink', hall, haccepts, -⟩ := Sink.writeAll_of_accepts h (encoder.feed bytes).2
        simp only [hall]
        apply ih haccepts
        cases hrest : Source.chunksRead rest with
        | error other =>
          rw [hrest] at hread
          cases hread
          rfl
        | ok chunks =>
          rw [hrest] at hread
          cases hread

theorem copyFrom_of_ok {sink : Sink} (h : sink.Accepts) (encoder : Encoder) (total : Nat)
    {source : Source} {chunks : List ByteArray} (hread : source.chunksRead = .ok chunks) :
    (copyFrom encoder sink total source).outcome = .ok (total + (joined chunks).size)
      ∧ (copyFrom encoder sink total source).sink.Accepts
      ∧ (copyFrom encoder sink total source).sink.bytes = sink.bytes ++ encoder.emit chunks := by
  -- The encoder and the sink change with every chunk.
  induction source generalizing sink encoder total chunks with
  | nil =>
    cases hread
    exact copyFrom_close h [] encoder total
  | cons pull rest ih =>
    cases pull with
    | failed other => cases hread
    | chunk bytes =>
      rw [Source.chunksRead] at hread
      rw [copyFrom]
      split at hread
      next hsize =>
        cases hread
        rw [if_pos hsize]
        exact copyFrom_close h rest encoder total
      next hsize =>
        rw [if_neg hsize]
        obtain ⟨sink', hall, haccepts, hbytes⟩ :=
          Sink.writeAll_of_accepts h (encoder.feed bytes).2
        simp only [hall]
        cases hrest : Source.chunksRead rest with
        | error other =>
          rw [hrest] at hread
          cases hread
        | ok others =>
          rw [hrest] at hread
          cases hread
          obtain ⟨houtcome, hopen, hsink⟩ :=
            ih haccepts (encoder.feed bytes).1 (total + bytes.size) hrest
          refine ⟨?_, hopen, ?_⟩
          · rw [houtcome, joined_cons, ByteArray.size_append, Nat.add_assoc]
          · rw [hsink, hbytes, Encoder.emit, ByteArray.append_assoc]

theorem compressedCopy_of_error {source : Source} {failure : Failure} (scheme : Scheme)
    (h : source.content = .error failure) :
    (compressedCopy source {} scheme).outcome = .error failure := by
  obtain ⟨sink', hall, haccepts, -⟩ :=
    Sink.writeAll_of_accepts Sink.accepts_new (Encoder.start scheme).2
  unfold compressedCopy
  simp only [hall]
  apply copyFrom_of_error haccepts
  unfold Source.content at h
  cases hread : source.chunksRead with
  | error other =>
    rw [hread] at h
    cases h
    rfl
  | ok chunks =>
    rw [hread] at h
    cases h

theorem compressedCopy_of_chunks {source : Source} {chunks : List ByteArray} {sink : Sink}
    (h : sink.Accepts) (scheme : Scheme) (hread : source.chunksRead = .ok chunks) :
    (compressedCopy source sink scheme).outcome = .ok (joined chunks).size
      ∧ (compressedCopy source sink scheme).sink.Accepts
      ∧ (compressedCopy source sink scheme).sink.bytes = sink.bytes ++ encoded scheme chunks := by
  obtain ⟨sink', hall, haccepts, hbytes⟩ :=
    Sink.writeAll_of_accepts h (Encoder.start scheme).2
  obtain ⟨houtcome, hopen, hsink⟩ := copyFrom_of_ok haccepts (Encoder.start scheme).1 0 hread
  unfold compressedCopy
  simp only [hall]
  refine ⟨?_, hopen, ?_⟩
  · rw [houtcome, Nat.zero_add]
  · rw [hsink, hbytes, encoded, ByteArray.append_assoc]

theorem compressedCopy_of_ok {source : Source} {body : ByteArray} (scheme : Scheme)
    (h : source.content = .ok body) :
    (∃ n, (compressedCopy source {} scheme).outcome = .ok n)
      ∧ scheme.Decodes (compressedCopy source {} scheme).sink.close.bytes body := by
  obtain ⟨chunks, hread, rfl⟩ := Source.content_eq_ok.1 h
  obtain ⟨houtcome, -, hsink⟩ := compressedCopy_of_chunks Sink.accepts_new scheme hread
  refine ⟨⟨_, houtcome⟩, ?_⟩
  rw [Sink.bytes_close, hsink, Sink.bytes_new, ByteArray.empty_append]
  exact decodes_encoded scheme chunks

end Depot
