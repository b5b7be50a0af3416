import Depot.Codec.Bits
import Mathlib.Algebra.Group.Nat.Defs

/-!
This module contains the theory of pieces that stand at a position of a block of bytes, whatever is
before and behind them, and what reading at that position gives.
-/

namespace Depot.Codec

def StandsAt (src : ByteArray) (pos : Nat) (piece : ByteArray) : Prop :=
  ∃ before after, src = before ++ piece ++ after ∧ before.size = pos

theorem extract_append_rest (bytes : ByteArray) (pos size : Nat) :
    bytes.extract pos (pos + size) ++ bytes.extract (pos + size) bytes.size
      = bytes.extract pos bytes.size := by
  rw [ByteArray.extract_append_extract, Nat.min_eq_left (Nat.le_add_right _ _)]
  by_cases hle : pos + size ≤ bytes.size
  · rw [Nat.max_eq_right hle]
  · have hnone : bytes.extract bytes.size (pos + size) = .empty := by
      rw [ByteArray.extract_eq_empty_iff]
      omega
    rw [Nat.max_eq_left (by omega)]
    by_cases hpos : pos ≤ bytes.size
    · rw [ByteArray.extract_eq_extract_append_extract bytes.size hpos (by omega), hnone,
        ByteArray.append_empty]
    · rw [ByteArray.extract_eq_empty_iff.2 (by omega), ByteArray.extract_eq_empty_iff.2 (by omega)]

variable {src a b piece : ByteArray} {pos : Nat}

theorem StandsAt.of_eq (h : src = piece) : StandsAt src 0 piece := by
  refine ⟨.empty, .empty, ?_, ByteArray.size_empty⟩
  rw [ByteArray.empty_append, ByteArray.append_empty, h]

theorem StandsAt.left (h : StandsAt src pos (a ++ b)) : StandsAt src pos a := by
  obtain ⟨before, after, hsrc, hpos⟩ := h
  refine ⟨before, b ++ after, ?_, hpos⟩
  rw [hsrc]
  simp only [ByteArray.append_assoc]

theorem StandsAt.right (h : StandsAt src pos (a ++ b)) : StandsAt src (pos + a.size) b := by
  obtain ⟨before, after, hsrc, hpos⟩ := h
  refine ⟨before ++ a, after, ?_, ?_⟩
  · rw [hsrc]
    simp only [ByteArray.append_assoc]
  · rw [ByteArray.size_append, hpos]

theorem StandsAt.le_size (h : StandsAt src pos piece) : pos + piece.size ≤ src.size := by
  obtain ⟨before, after, hsrc, hpos⟩ := h
  rw [hsrc, ByteArray.size_append, ByteArray.size_append]
  omega

theorem StandsAt.extract_eq (h : StandsAt src pos piece) :
    src.extract pos (pos + piece.size) = piece := by
  obtain ⟨before, after, hsrc, hpos⟩ := h
  subst hpos
  have hskip := ByteArray.extract_append_size_add (i := 0) (j := piece.size) (a := before)
    (b := piece ++ after)
  rw [hsrc, ByteArray.append_assoc, ← Nat.add_zero before.size, Nat.add_assoc, Nat.zero_add,
    hskip]
  exact ByteArray.extract_append_eq_left rfl

theorem StandsAt.byteAt_eq (h : StandsAt src pos piece) {i : Nat} (hi : i < piece.size) :
    byteAt src (pos + i) = byteAt piece i := by
  have hle := h.le_size
  obtain ⟨before, after, hsrc, hpos⟩ := h
  subst hpos hsrc
  unfold byteAt
  rw [dif_pos (by omega), dif_pos hi]
  congr 1
  rw [ByteArray.getElem_append_left (by rw [ByteArray.size_append]; omega),
    ByteArray.getElem_append_right (by omega)]
  simp only [Nat.add_sub_cancel_left]

theorem byteAt_numberBytes_succ (count n : Nat) : byteAt (numberBytes (count + 1) n) 0 = n % 256 := by
  have hsize := size_numberBytes (count + 1) n
  unfold byteAt
  rw [dif_pos (by omega)]
  simp only [numberBytes]
  rw [ByteArray.getElem_append_left (by exact Nat.zero_lt_one)]
  simp [ByteArray.getElem_eq_getElem_data]

theorem StandsAt.numberAt_eq {count n : Nat} (h : StandsAt src pos (numberBytes count n)) :
    numberAt src pos count = n % 256 ^ count := by
  induction count generalizing pos n with
  | zero => simp [numberAt, Nat.mod_one]
  | succ count ih =>
    have hfirst := h.byteAt_eq (i := 0) (by rw [size_numberBytes]; omega)
    rw [byteAt_numberBytes_succ] at hfirst
    have hrest : numberAt src (pos + 1) count = n / 256 % 256 ^ count := ih h.right
    rw [Nat.add_zero] at hfirst
    rw [numberAt, hfirst, hrest, Nat.pow_succ', Nat.mod_mul]

theorem bitAt_byte (src : ByteArray) (pos : Nat) {i : Nat} (hi : i < 8) :
    bitAt src (8 * pos + i) = (byteAt src pos) >>> i % 2 := by
  unfold bitAt
  rw [show (8 * pos + i) / 8 = pos by omega, show (8 * pos + i) % 8 = i by omega]

end Depot.Codec
