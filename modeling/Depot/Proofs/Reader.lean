import Depot.Proofs.Transfer
import Depot.Reader

/-!
This module contains the theory of reading patterns: whatever reads of a sound body follow one
another, they bring consecutive pieces of it. With it a copy under any scheme reads back as the data
that were copied.
-/

namespace Depot

open Codec

inductive Demand where
  | some (size : Nat)
  | into (buffer : ByteArray)
  | line
  | all

/-- Whether `piece` is the first line of `rest`, with the byte that ends it, and `left` follows. -/
structure Line (rest piece left : ByteArray) : Prop where
  split : rest = piece ++ left
  within : ∀ i, i + 1 < piece.size → byteAt piece i ≠ 0x0a
  last : left = .empty ∨ ∃ i, piece.size = i + 1 ∧ byteAt piece i = 0x0a

theorem Line.cons {byte rest piece left : ByteArray} (h : Line rest piece left)
    (hone : byte.size = 1) (hbyte : byteAt byte 0 ≠ 0x0a) :
    Line (byte ++ rest) (byte ++ piece) left := by
  have hlater : ∀ i, i < piece.size → byteAt (byte ++ piece) (i + 1) = byteAt piece i := by
    intro i hi
    have hstands := (StandsAt.of_eq (Eq.refl (byte ++ piece))).right.byteAt_eq hi
    rw [← hstands, hone, Nat.zero_add, Nat.add_comm]
  refine ⟨by rw [h.split, ByteArray.append_assoc], ?_, ?_⟩
  · intro i hi
    rw [ByteArray.size_append] at hi
    cases i with
    | zero =>
      have hstands := (StandsAt.of_eq (Eq.refl (byte ++ piece))).left.byteAt_eq (i := 0) (by omega)
      rw [hstands]
      exact hbyte
    | succ i =>
      rw [hlater i (by omega)]
      exact h.within i (by omega)
  · rcases h.last with hleft | ⟨i, hsize, hnewline⟩
    · exact .inl hleft
    · refine .inr ⟨i + 1, by rw [ByteArray.size_append]; omega, ?_⟩
      rw [hlater i (by omega)]
      exact hnewline

def Demand.Takes : Demand → (rest piece left : ByteArray) → Prop
  | .some size, rest, piece, left => Draws size rest piece left
  | .into buffer, rest, piece, left => Draws buffer.size rest piece left
  | .line, rest, piece, left => Line rest piece left
  | .all, rest, piece, left => piece = rest ∧ left = .empty

inductive Serves : (demands : List Demand) → (rest : ByteArray) → (pieces : List ByteArray) →
    (left : ByteArray) → Prop
  | nil (rest) : Serves [] rest [] rest
  | cons {demand demands rest piece between pieces left} :
    demand.Takes rest piece between → Serves demands between pieces left →
      Serves (demand :: demands) rest (piece :: pieces) left

namespace Demand

variable {demand : Demand} {rest piece left : ByteArray}

theorem Takes.split (h : demand.Takes rest piece left) : rest = piece ++ left := by
  cases demand with
  | some size => exact Draws.split h
  | into buffer => exact Draws.split h
  | line => exact Line.split h
  | all =>
    obtain ⟨rfl, rfl⟩ := h
    exact ByteArray.append_empty.symm

end Demand

theorem Serves.split {demands : List Demand} {rest left : ByteArray} {pieces : List ByteArray}
    (h : Serves demands rest pieces left) : rest = joined pieces ++ left := by
  induction h with
  | nil rest => exact ByteArray.empty_append.symm
  | cons htakes _ ih => rw [htakes.split, ih, joined_cons, ByteArray.append_assoc]

theorem Serves.of_empty {demands : List Demand} {rest left : ByteArray} {pieces : List ByteArray}
    (h : Serves demands rest pieces left) (hrest : rest = .empty) :
    pieces = demands.map fun _ => .empty := by
  induction h with
  | nil => rfl
  | cons htakes _ ih =>
    subst hrest
    obtain ⟨hpiece, hbetween⟩ := ByteArray.append_eq_empty_iff.1 htakes.split.symm
    rw [hpiece, ih hbetween, List.map_cons]

namespace Reader

def serve (r : Reader) : Demand → Except Failure ByteArray × Reader
  | .some size => r.read size
  | .into buffer =>
    match r.readInto buffer with
    | (.error failure, r) => (.error failure, r)
    | (.ok (count, buffer), r) => (.ok (buffer.extract 0 count), r)
  | .line => r.readLine
  | .all => r.readAll

def serveAll (r : Reader) : List Demand → Except Failure (List ByteArray) × Reader
  | [] => (.ok [], r)
  | demand :: demands =>
    match r.serve demand with
    | (.error failure, r) => (.error failure, r)
    | (.ok piece, r) =>
      match r.serveAll demands with
      | (.error failure, r) => (.error failure, r)
      | (.ok pieces, r) => (.ok (piece :: pieces), r)

/-- Whether `rest` is left to read, and no fault is met on the way. -/
structure Holds (r : Reader) (rest : ByteArray) : Prop where
  rawOpen : r.rawClosed = false
  body : r.body.Holds rest

variable {r : Reader} {rest : ByteArray}

theorem holds_ofBytes {scheme : Scheme} {raw : ByteArray} (h : (Body.ofBytes scheme raw).Holds rest) :
    (ofBytes scheme raw).Holds rest :=
  ⟨rfl, h⟩

theorem Holds.read (h : r.Holds rest) (size : Nat) :
    ∃ piece left r', r.read size = (.ok piece, r') ∧ r'.Holds left ∧ Draws size rest piece left := by
  obtain ⟨piece, body', left, hread, hholds, hdraws⟩ := h.body.read size
  refine ⟨piece, left, { r with body := body' }, ?_, ⟨h.rawOpen, hholds⟩, hdraws⟩
  rw [Reader.read, if_neg (by simp [h.rawOpen]), hread]
  rfl

theorem Holds.readAll (h : r.Holds rest) :
    ∃ r', r.readAll = (.ok rest, r') ∧ r'.Holds .empty := by
  obtain ⟨body', hread, hholds⟩ := h.body.readAll
  refine ⟨{ r with body := body' }, ?_, h.rawOpen, hholds⟩
  rw [Reader.readAll, if_neg (by simp [h.rawOpen]), hread]
  rfl

theorem Holds.readInto (h : r.Holds rest) (buffer : ByteArray) :
    ∃ piece left r', r.readInto buffer
        = (.ok (piece.size, piece ++ buffer.extract piece.size buffer.size), r')
      ∧ r'.Holds left ∧ Draws buffer.size rest piece left := by
  obtain ⟨piece, left, r', hread, hholds, hdraws⟩ := h.read buffer.size
  refine ⟨piece, left, r', ?_, hholds, hdraws⟩
  rw [Reader.readInto, hread]

theorem readLineFrom_of_holds (fuel : Nat) (line : ByteArray) (h : r.Holds rest)
    (hfuel : rest.size < fuel) :
    ∃ piece left r', readLineFrom fuel r line = (.ok (line ++ piece), r') ∧ r'.Holds left
      ∧ Line rest piece left := by
  induction fuel generalizing r rest line with
  | zero => omega
  | succ fuel ih =>
    obtain ⟨byte, between, r', hread, hholds, hdraws⟩ := h.read 1
    simp only [readLineFrom, hread]
    obtain rfl := hdraws.split
    by_cases hbyte : byte.size = 0
    · -- The body has ended.
      rw [if_pos hbyte]
      obtain rfl := (hdraws.spent hbyte).resolve_left (by decide)
      obtain rfl := ByteArray.size_eq_zero_iff.1 hbyte
      exact ⟨.empty, .empty, r', by simp, hholds, rfl, by simp, .inl rfl⟩
    · have hone : byte.size = 1 := by
        have := hdraws.le
        omega
      rw [if_neg hbyte]
      by_cases hnewline : byteAt byte 0 = 0x0a
      · rw [if_pos hnewline]
        exact ⟨byte, between, r', rfl, hholds, rfl, by omega, .inr ⟨0, hone, hnewline⟩⟩
      · rw [if_neg hnewline]
        rw [ByteArray.size_append] at hfuel
        obtain ⟨piece, left, r'', hline, hholds', htakes⟩ := ih (line ++ byte) hholds (by omega)
        refine ⟨byte ++ piece, left, r'', ?_, hholds', htakes.cons hone hnewline⟩
        rw [hline, ByteArray.append_assoc]

theorem Holds.readLine (h : r.Holds rest) :
    ∃ piece left r', r.readLine = (.ok piece, r') ∧ r'.Holds left ∧ Line rest piece left := by
  obtain ⟨piece, left, r', hline, hholds, htakes⟩ :=
    readLineFrom_of_holds (r.body.left + 1) .empty h (Nat.lt_succ_of_le h.body.size_le_left)
  rw [ByteArray.empty_append] at hline
  exact ⟨piece, left, r', hline, hholds, htakes⟩

theorem Holds.serve (h : r.Holds rest) (demand : Demand) :
    ∃ piece left r', r.serve demand = (.ok piece, r') ∧ r'.Holds left
      ∧ demand.Takes rest piece left := by
  cases demand with
  | some size => exact h.read size
  | into buffer =>
    obtain ⟨piece, left, r', hread, hholds, hdraws⟩ := h.readInto buffer
    refine ⟨piece, left, r', ?_, hholds, hdraws⟩
    simp only [Reader.serve, hread, ByteArray.extract_append_eq_left]
  | line => exact h.readLine
  | all =>
    obtain ⟨r', hread, hholds⟩ := h.readAll
    exact ⟨rest, .empty, r', hread, hholds, rfl, rfl⟩

theorem Holds.serveAll (h : r.Holds rest) (demands : List Demand) :
    ∃ pieces left r', r.serveAll demands = (.ok pieces, r') ∧ r'.Holds left
      ∧ Serves demands rest pieces left := by
  induction demands generalizing r rest with
  | nil => exact ⟨[], rest, r, rfl, h, .nil rest⟩
  | cons demand demands ih =>
    obtain ⟨piece, between, r', hserve, hholds, htakes⟩ := h.serve demand
    obtain ⟨pieces, left, r'', hall, hholds', hserves⟩ := ih hholds
    refine ⟨piece :: pieces, left, r'', ?_, hholds', .cons htakes hserves⟩
    simp only [Reader.serveAll, hserve, hall]

theorem Holds.serveAll_of_end (h : r.Holds .empty) (demands : List Demand) :
    ∃ r', r.serveAll demands = (.ok (demands.map fun _ => .empty), r') := by
  obtain ⟨pieces, left, r', hall, -, hserves⟩ := h.serveAll demands
  obtain rfl := hserves.of_empty rfl
  exact ⟨r', hall⟩

def Finishes (r : Reader) (rest : ByteArray) : Prop :=
  ∃ r', r.readAll = (.ok rest, r')
    ∧ ∀ further : List Demand,
        ∃ r'', r'.serveAll further = (.ok (further.map fun _ => .empty), r'')

/-- Whether a read into a buffer leaves the buffer as it was behind what it brings. -/
def SparesBuffers (r : Reader) : Prop :=
  ∀ buffer, ∃ count filled r', r.readInto buffer = (.ok (count, filled), r')
    ∧ count ≤ buffer.size
    ∧ filled.size = buffer.size
    ∧ filled.extract count buffer.size = buffer.extract count buffer.size

/--
Whether a reader yields `body` under every reading pattern: any reads bring consecutive pieces of
it, and what they leave can be read at once.
-/
def Yields (r : Reader) (body : ByteArray) : Prop :=
  ∀ demands : List Demand, ∃ pieces last r', r.serveAll demands = (.ok pieces, r')
    ∧ Serves demands body pieces last
    ∧ joined pieces ++ last = body
    ∧ r'.Finishes last
    ∧ r'.SparesBuffers

theorem Holds.sparesBuffers (h : r.Holds rest) : r.SparesBuffers := by
  intro buffer
  obtain ⟨piece, left, r', hread, -, hdraws⟩ := h.readInto buffer
  have hsize : piece.size + (buffer.extract piece.size buffer.size).size = buffer.size := by
    have := hdraws.le
    rw [ByteArray.size_extract]
    omega
  refine ⟨piece.size, _, r', hread, hdraws.le, ?_, ?_⟩
  · rw [ByteArray.size_append, hsize]
  · exact ByteArray.extract_append_eq_right rfl hsize.symm

theorem Holds.yields (h : r.Holds rest) : r.Yields rest := by
  intro demands
  obtain ⟨pieces, last, r', hall, hholds, hserves⟩ := h.serveAll demands
  obtain ⟨r'', hlast, hend⟩ := hholds.readAll
  exact ⟨pieces, last, r', hall, hserves, hserves.split.symm,
    ⟨r'', hlast, hend.serveAll_of_end⟩, hholds.sparesBuffers⟩

end Reader

/--
A copy of a source counts its data and leaves the sink open, and the reader of what it stored yields
the data under every reading pattern.
-/
theorem compressedCopy_transparent {source : Source} {body : ByteArray} {sink : Sink}
    (hcontent : source.content = .ok body) (hsink : sink.Accepts) (scheme : Scheme) :
    (compressedCopy source sink scheme).outcome = .ok body.size
      ∧ (compressedCopy source sink scheme).sink.closed = false
      ∧ ∃ stored, (compressedCopy source sink scheme).sink.bytes = sink.bytes ++ stored
          ∧ (Reader.ofBytes scheme stored).Yields body := by
  obtain ⟨chunks, hread, rfl⟩ := Source.content_eq_ok.1 hcontent
  obtain ⟨houtcome, hopen, hbytes⟩ := compressedCopy_of_chunks hsink scheme hread
  exact ⟨houtcome, hopen.open', encoded scheme chunks, hbytes,
    (Reader.holds_ofBytes (holds_encoded scheme chunks)).yields⟩

def Source.verse : Source :=
  [.chunk "one\nt".toUTF8, .chunk "w".toUTF8, .chunk "o".toUTF8, .chunk .empty, .chunk "x".toUTF8]

theorem compressedCopy_transparent_verse :
    Source.verse.content = .ok "one\ntwo".toUTF8
      ∧ Sink.Accepts { writes := ["head".toUTF8] }
      ∧ (compressedCopy Source.verse { writes := ["head".toUTF8] } .gzip).outcome = .ok 7
      ∧ ∃ stored,
          (compressedCopy Source.verse { writes := ["head".toUTF8] } .gzip).sink.bytes
              = "head".toUTF8 ++ stored
            ∧ (Reader.ofBytes .gzip stored).Yields "one\ntwo".toUTF8 := by
  have hcontent : Source.verse.content = .ok "one\ntwo".toUTF8 := by rfl
  have haccepts : Sink.Accepts { writes := ["head".toUTF8] } := ⟨rfl, fun _ => rfl⟩
  obtain ⟨houtcome, -, stored, hbytes, hyields⟩ :=
    compressedCopy_transparent hcontent haccepts .gzip
  exact ⟨hcontent, haccepts, houtcome, stored, hbytes, hyields⟩

end Depot
