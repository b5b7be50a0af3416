import Depot.Codec.Encoder
import Depot.Codec.Gzip
import Depot.Proofs.Codec.Bytes

/-!
This module contains the proof that the gzip decoder reads back what the gzip encoder writes: stored
blocks of deflated data, the check value over all of them, and the frame around both.
-/

namespace Depot

namespace Checksum.Crc32

open Codec

theorem run_add (bytes : ByteArray) (m n pos : Nat) (crc : UInt32) :
    run bytes (m + n) pos crc = run bytes n (pos + m) (run bytes m pos crc) := by
  induction m generalizing pos crc with
  | zero => simp [run]
  | succ m ih =>
    rw [show m + 1 + n = (m + n) + 1 by omega]
    simp only [run]
    rw [ih, show pos + 1 + m = pos + (m + 1) by omega]

theorem get!_standsAt {src piece : ByteArray} {pos i : Nat} (h : StandsAt src pos piece)
    (hi : i < piece.size) : src.get! (pos + i) = piece.get! i := by
  have hle := h.le_size
  obtain ⟨before, after, hsrc, hpos⟩ := h
  subst hpos hsrc
  have hleft : ∀ (block : ByteArray) (j : Nat) (hj : j < block.size), block.get! j = block[j] := by
    intro block j hj
    exact getElem!_pos block.data j hj
  rw [hleft _ _ (by omega), hleft _ _ hi]
  rw [ByteArray.getElem_append_left (by rw [ByteArray.size_append]; omega),
    ByteArray.getElem_append_right (by omega)]
  simp only [Nat.add_sub_cancel_left]

theorem run_standsAt {src piece : ByteArray} {pos : Nat} (h : StandsAt src pos piece)
    (left off : Nat) (hle : off + left ≤ piece.size) (crc : UInt32) :
    run src left (pos + off) crc = run piece left off crc := by
  induction left generalizing off crc with
  | zero => rfl
  | succ left ih =>
    simp only [run]
    rw [get!_standsAt h (by omega), Nat.add_assoc, ih _ (by omega)]

theorem run_append (a b : ByteArray) (crc : UInt32) :
    run (a ++ b) (a ++ b).size 0 crc = run b b.size 0 (run a a.size 0 crc) := by
  have hwhole := StandsAt.of_eq (Eq.refl (a ++ b))
  have ha := run_standsAt hwhole.left a.size 0 (by omega) crc
  have hb := run_standsAt hwhole.right b.size 0 (by omega) (run a a.size 0 crc)
  simp only [Nat.add_zero] at ha hb
  rw [ByteArray.size_append, run_add, ha, hb]

end Checksum.Crc32

namespace Codec

def joined (pieces : List ByteArray) : ByteArray :=
  pieces.foldr (· ++ ·) .empty

@[simp]
theorem joined_nil : joined [] = .empty := rfl

@[simp]
theorem joined_cons (piece : ByteArray) (pieces : List ByteArray) :
    joined (piece :: pieces) = piece ++ joined pieces := rfl

theorem joined_append (pieces more : List ByteArray) :
    joined (pieces ++ more) = joined pieces ++ joined more := by
  induction pieces with
  | nil => rw [List.nil_append, joined_nil, ByteArray.empty_append]
  | cons piece pieces ih =>
    rw [List.cons_append, joined_cons, joined_cons, ih, ByteArray.append_assoc]

namespace Encoder

theorem size_byte (n : Nat) : (byte n).size = 1 := rfl

theorem byteAt_byte (n : Nat) : byteAt (byte n) 0 = n % 256 := by
  unfold byteAt
  rw [dif_pos (by rw [size_byte]; omega)]
  simp [byte, ByteArray.getElem_eq_getElem_data]

theorem size_storedBlock (final : Bool) (bytes : ByteArray) :
    (storedBlock final bytes).size = bytes.size + 5 := by
  simp only [storedBlock, ByteArray.size_append, size_byte, size_numberBytes]
  omega

theorem le_size_storedBlocks (bytes : ByteArray) (count pos : Nat) :
    count ≤ (storedBlocks bytes count pos).size := by
  induction count generalizing pos with
  | zero => exact Nat.zero_le _
  | succ count ih =>
    have := ih (pos + maxStored)
    simp only [storedBlocks, ByteArray.size_append, size_storedBlock]
    omega

def chunkBlocks (chunk : ByteArray) : ByteArray :=
  storedBlocks chunk ((chunk.size + (maxStored - 1)) / maxStored) 0

def deflated (chunks : List ByteArray) : ByteArray :=
  joined (chunks.map chunkBlocks) ++ storedBlock true .empty

/-- What an encoder still writes if it is fed some chunks and then finished. -/
def emit (encoder : Encoder) : List ByteArray → ByteArray
  | [] => joined encoder.finish
  | chunk :: chunks =>
    joined (encoder.feed chunk).2 ++ (encoder.feed chunk).1.emit chunks

theorem emit_gzip (register : UInt32) (size : Nat) (chunks : List ByteArray) :
    (gzip register size).emit chunks
      =
    deflated chunks
      ++ numberBytes 4 (~~~ Checksum.Crc32.run (joined chunks) (joined chunks).size 0 register).toNat
      ++ numberBytes 4 (size + (joined chunks).size) := by
  induction chunks generalizing register size with
  | nil =>
    simp only [emit, finish, deflated, joined_nil, joined_cons, List.map_nil,
      ByteArray.append_empty, ByteArray.empty_append, ByteArray.append_assoc, ByteArray.size_empty,
      Checksum.Crc32.run, Nat.add_zero]
  | cons chunk chunks ih =>
    simp only [emit, feed]
    rw [ih]
    simp only [deflated, joined_cons, joined_nil, List.map_cons, chunkBlocks,
      ByteArray.append_empty, ByteArray.append_assoc]
    rw [Checksum.Crc32.run_append, ByteArray.size_append, Nat.add_assoc]

end Encoder

namespace Inflate

open Encoder

theorem bitsAt_three (src : ByteArray) (pos : Nat) :
    bitsAt src (8 * pos) 3 = byteAt src pos % 8 := by
  have h0 := bitAt_byte src pos (i := 0) (by omega)
  have h1 := bitAt_byte src pos (i := 1) (by omega)
  have h2 := bitAt_byte src pos (i := 2) (by omega)
  simp only [Nat.shiftRight_eq_div_pow] at h0 h1 h2
  simp only [bitsAt, Nat.add_assoc]
  rw [← Nat.add_zero (8 * pos), Nat.add_assoc, Nat.add_assoc, Nat.zero_add, Nat.zero_add, h0, h1,
    h2]
  omega

theorem readBits?_storedBlock {src : ByteArray} {pos : Nat} {final : Bool} {bytes : ByteArray}
    (h : StandsAt src pos (storedBlock final bytes)) :
    readBits? src (8 * pos) 3 = some (if final then 1 else 0) := by
  have hle := h.le_size
  rw [size_storedBlock] at hle
  have hbyte := h.byteAt_eq (i := 0) (by rw [size_storedBlock]; omega)
  have hfirst : byteAt (storedBlock final bytes) 0 = if final then 1 else 0 := by
    have hat := (StandsAt.of_eq (Eq.refl (storedBlock final bytes))).left.left.left.byteAt_eq (i := 0)
      (by rw [size_byte]; omega)
    rw [Nat.add_zero] at hat
    rw [hat, byteAt_byte]
    cases final <;> rfl
  unfold readBits?
  rw [if_pos (by omega), bitsAt_three]
  rw [Nat.add_zero] at hbyte
  rw [hbyte, hfirst]
  cases final <;> rfl

theorem stored_storedBlock {src : ByteArray} {pos : Nat} {final : Bool} {bytes : ByteArray}
    (base : Nat) (p : Progress) (h : StandsAt src pos (storedBlock final bytes))
    (hsize : bytes.size ≤ maxStored) :
    ∃ p' : Progress, p'.out = p.out ++ bytes
      ∧ stored src base (8 * pos + 3) p
          = ⟨p', .ok (8 * (pos + (storedBlock final bytes).size))⟩ := by
  have hle := h.le_size
  rw [size_storedBlock] at hle
  have hlength : numberAt src (pos + 1) 2 = bytes.size := by
    have := h.left.left.right.numberAt_eq
    rw [size_byte] at this
    rw [this]
    unfold maxStored at hsize
    omega
  have hcomplement : numberAt src (pos + 1 + 2) 2 = maxStored - bytes.size := by
    have := h.left.right.numberAt_eq
    rw [ByteArray.size_append, size_byte, size_numberBytes] at this
    rw [Nat.add_assoc, this]
    unfold maxStored at hsize ⊢
    omega
  have hbytes : src.extract (pos + 1 + 4) (pos + 1 + 4 + bytes.size) = bytes := by
    have := h.right.extract_eq
    simp only [ByteArray.size_append, size_byte, size_numberBytes] at this
    exact this
  unfold stored
  simp only [show (8 * pos + 3 + 7) / 8 = pos + 1 by omega]
  rw [if_neg (by omega), hlength, hcomplement, if_neg (by unfold maxStored at *; omega)]
  rw [Nat.min_eq_left (by omega), hbytes, if_pos (by omega), size_storedBlock]
  rw [show (pos + 1 + 4 + bytes.size) * 8 = 8 * (pos + (bytes.size + 5)) by omega]
  split
  · exact ⟨_, rfl, rfl⟩
  · exact ⟨_, rfl, rfl⟩

theorem blocks_storedBlocks {src bytes : ByteArray} {count at' pos : Nat} (base fuel : Nat)
    (p : Progress) (h : StandsAt src pos (storedBlocks bytes count at')) :
    ∃ p' : Progress, p'.out = p.out ++ bytes.extract at' (at' + count * maxStored)
      ∧ blocks src base (fuel + count) (8 * pos) p
          = blocks src base fuel (8 * (pos + (storedBlocks bytes count at').size)) p' := by
  induction count generalizing at' pos p with
  | zero =>
    refine ⟨p, ?_, ?_⟩
    · simp
    · simp [storedBlocks]
  | succ count ih =>
    have hsize : (bytes.extract at' (at' + maxStored)).size ≤ maxStored := by
      rw [ByteArray.size_extract]
      omega
    -- The first block adds its part, and the hypothesis all that is behind it.
    obtain ⟨p₁, hout₁, hstored⟩ := stored_storedBlock base p h.left hsize
    obtain ⟨p₂, hout₂, hblocks⟩ := ih p₁ h.right
    refine ⟨p₂, ?_, ?_⟩
    · rw [hout₂, hout₁, ByteArray.append_assoc, ByteArray.extract_append_extract]
      rw [Nat.min_eq_left (by omega), Nat.max_eq_right (by omega)]
      congr 2
      rw [Nat.succ_mul]
      omega
    · rw [show fuel + (count + 1) = (fuel + count) + 1 by omega]
      rw [blocks, readBits?_storedBlock h.left]
      simp only [Bool.false_eq_true, if_false, Nat.zero_div, Nat.zero_mod, Nat.zero_ne_one, hstored]
      rw [hblocks, storedBlocks, ByteArray.size_append, Nat.add_assoc]

theorem extract_chunkBlocks (chunk : ByteArray) :
    chunk.extract 0 (0 + (chunk.size + (maxStored - 1)) / maxStored * maxStored) = chunk := by
  have hle : chunk.size ≤ (chunk.size + (maxStored - 1)) / maxStored * maxStored := by
    unfold maxStored
    omega
  have := ByteArray.extract_zero_max_size (a := chunk)
    (i := (chunk.size + (maxStored - 1)) / maxStored * maxStored)
  rw [Nat.max_eq_left hle] at this
  rw [Nat.zero_add]
  exact this

theorem blocks_deflated {src : ByteArray} {chunks : List ByteArray} {pos : Nat} (base fuel : Nat)
    (p : Progress) (h : StandsAt src pos (deflated chunks)) (hfuel : (deflated chunks).size ≤ fuel) :
    ∃ p' : Progress, p'.out = p.out ++ joined chunks
      ∧ blocks src base fuel (8 * pos) p
          = ⟨p', .finished (8 * (pos + (deflated chunks).size))⟩ := by
  induction chunks generalizing pos fuel p with
  | nil =>
    simp only [deflated, List.map_nil, joined_nil, ByteArray.empty_append] at h hfuel ⊢
    obtain ⟨p', hout, hstored⟩ := stored_storedBlock base p h (Nat.zero_le _)
    refine ⟨p', hout, ?_⟩
    rw [size_storedBlock, ByteArray.size_empty] at hfuel
    obtain ⟨k, rfl⟩ : ∃ k, fuel = k + 1 := ⟨fuel - 1, by omega⟩
    rw [blocks, readBits?_storedBlock h]
    simp only [if_true, show (1 : Nat) / 2 = 0 by rfl, show (1 : Nat) % 2 = 1 by rfl, hstored]
  | cons chunk chunks ih =>
    have hsplit : deflated (chunk :: chunks) = chunkBlocks chunk ++ deflated chunks := by
      simp only [deflated, List.map_cons, joined_cons, ByteArray.append_assoc]
    rw [hsplit] at h hfuel ⊢
    rw [ByteArray.size_append] at hfuel ⊢
    have hcount := le_size_storedBlocks chunk ((chunk.size + (maxStored - 1)) / maxStored) 0
    unfold chunkBlocks at h hfuel ⊢
    -- Each block takes one step, and has at least one byte.
    obtain ⟨k, rfl⟩ : ∃ k, fuel = k + (chunk.size + (maxStored - 1)) / maxStored :=
      ⟨fuel - (chunk.size + (maxStored - 1)) / maxStored, by omega⟩
    obtain ⟨p₁, hout₁, hblocks₁⟩ := blocks_storedBlocks base k p h.left
    obtain ⟨p₂, hout₂, hblocks₂⟩ := ih k p₁ h.right (by omega)
    refine ⟨p₂, ?_, ?_⟩
    · rw [hout₂, hout₁, extract_chunkBlocks, joined_cons, ByteArray.append_assoc]
    · rw [hblocks₁, hblocks₂, Nat.add_assoc]

end Inflate

namespace Gzip

open Encoder

def member (chunks : List ByteArray) : ByteArray :=
  joined gzipHeader ++ (Encoder.gzip 0xffffffff 0).emit chunks

theorem joined_gzipHeader : joined gzipHeader = ⟨#[0x1f, 0x8b, 8, 0, 0, 0, 0, 0, 2, 0xff]⟩ := by
  decide

theorem size_gzipHeader : (joined gzipHeader).size = 10 := by
  rw [joined_gzipHeader]
  rfl

theorem member_eq (chunks : List ByteArray) :
    member chunks
      =
    joined gzipHeader
      ++ (deflated chunks
        ++ numberBytes 4 (Checksum.Crc32.compute (joined chunks)).toNat
        ++ numberBytes 4 (joined chunks).size) := by
  unfold member
  rw [emit_gzip, Nat.zero_add]
  rfl

theorem size_member (chunks : List ByteArray) :
    (member chunks).size = 10 + (deflated chunks).size + 8 := by
  rw [member_eq]
  simp only [ByteArray.size_append, size_numberBytes, size_gzipHeader]
  omega

theorem readHeader_member (chunks : List ByteArray) : readHeader (member chunks) 0 = .sound 10 := by
  have hheader : StandsAt (member chunks) 0 (joined gzipHeader) :=
    (StandsAt.of_eq (member_eq chunks)).left
  have hsize := size_member chunks
  rw [joined_gzipHeader] at hheader
  have hmagic : (member chunks).extract 0 (0 + 2) = ⟨#[0x1f, 0x8b]⟩ := by
    have hsplit : (⟨#[0x1f, 0x8b, 8, 0, 0, 0, 0, 0, 2, 0xff]⟩ : ByteArray)
        = ⟨#[0x1f, 0x8b]⟩ ++ ⟨#[8, 0, 0, 0, 0, 0, 2, 0xff]⟩ := by decide
    rw [hsplit] at hheader
    exact hheader.left.extract_eq
  have hlist : (⟨#[0x1f, 0x8b]⟩ : ByteArray).toList = [0x1f, 0x8b] := by cbv
  have hmethod : byteAt (member chunks) (0 + 2) = 8 := hheader.byteAt_eq (i := 2) (by decide)
  have hflags : byteAt (member chunks) (0 + 3) = 0 := hheader.byteAt_eq (i := 3) (by decide)
  unfold readHeader
  simp only [hmagic, hlist, hmethod, hflags]
  rw [if_neg (by decide), if_neg (by simp), if_neg (by omega), if_neg (by simp)]
  rfl

theorem readHeader_end {src : ByteArray} {pos : Nat} (h : src.size ≤ pos) :
    readHeader src pos = .absent := by
  unfold readHeader
  simp only [ByteArray.size_extract]
  rw [if_pos (by omega)]

theorem toUInt32_mod (n : Nat) : (n % 256 ^ 4).toUInt32 = n.toUInt32 := by
  apply UInt32.toNat_inj.1
  simp only [Nat.toUInt32, UInt32.toNat_ofNat']
  omega

theorem trailerFault?_member (chunks : List ByteArray) :
    trailerFault? (member chunks) (10 + (deflated chunks).size) (joined chunks) = Option.none := by
  have hparts := (StandsAt.of_eq (member_eq chunks)).right
  have hcheck := hparts.left.right.numberAt_eq
  have hlength := hparts.right.numberAt_eq
  rw [size_gzipHeader, Nat.zero_add] at hcheck hlength
  rw [ByteArray.size_append, size_numberBytes, ← Nat.add_assoc] at hlength
  unfold trailerFault?
  rw [hcheck, hlength, toUInt32_mod, toUInt32_mod]
  simp

theorem run_member (chunks : List ByteArray) :
    ∃ p : Inflate.Progress, p.out = joined chunks
      ∧ Inflate.run (member chunks) 10
          = ⟨p, .finished (8 * (10 + (deflated chunks).size))⟩ := by
  have hdata := (StandsAt.of_eq (member_eq chunks)).right.left.left
  have hsize := size_member chunks
  rw [size_gzipHeader, Nat.zero_add] at hdata
  obtain ⟨p, hout, hblocks⟩ := Inflate.blocks_deflated 10 ((member chunks).size + 1)
    ⟨.empty, 0, 0⟩ hdata (by omega)
  rw [ByteArray.empty_append] at hout
  refine ⟨p, hout, ?_⟩
  unfold Inflate.run
  rw [Nat.mul_comm 10 8, hblocks]

theorem decode_member (chunks : List ByteArray) :
    decode (member chunks) = Tape.blank.push (joined chunks) Option.none := by
  have hsize := size_member chunks
  obtain ⟨p, hout, hrun⟩ := run_member chunks
  obtain ⟨k, hk⟩ : ∃ k, (member chunks).size + 1 = k + 1 + 1 + 1 :=
    ⟨(member chunks).size - 2, by omega⟩
  unfold decode
  rw [hk, decodeFrom, readHeader_member]
  simp only [hrun, hout]
  rw [show (8 * (10 + (deflated chunks).size) + 7) / 8 = 10 + (deflated chunks).size by omega]
  congr 1
  rw [decodeFrom, if_neg (by omega), trailerFault?_member]
  simp only []
  rw [show (member chunks).size - (10 + (deflated chunks).size + 8) = 0 by omega, skipZeros,
    decodeFrom, readHeader_end (by omega)]

end Gzip

end Codec

end Depot
