import Depot.Codec.Zstd.Frame
import Depot.Proofs.Codec.Gzip

/-!
This module contains the proof that the Zstandard decoder reads back what the Zstandard encoder
writes: a frame of raw blocks. The encoder holds data back until it fills a block.
-/

namespace Depot.Codec

namespace Encoder

theorem size_rawBlock (last : Bool) (bytes : ByteArray) :
    (rawBlock last bytes).size = bytes.size + 3 := by
  simp only [rawBlock, ByteArray.size_append, size_numberBytes]
  omega

theorem le_size_rawBlocks (bytes : ByteArray) (count pos : Nat) :
    count ≤ (rawBlocks bytes count pos).size := by
  induction count generalizing pos with
  | zero => exact Nat.zero_le _
  | succ count ih =>
    have := ih (pos + maxRaw)
    simp only [rawBlocks, ByteArray.size_append, size_rawBlock]
    omega

theorem emit_zstd (pending : ByteArray) (chunks : List ByteArray) :
    (zstd pending false).emit chunks = zstdHeader ++ (zstd pending true).emit chunks := by
  induction chunks generalizing pending with
  | nil =>
    simp [emit, finish, beforeBlock, ByteArray.empty_append]
  | cons chunk chunks ih =>
    simp only [emit, feed]
    split
    · rw [ih]
      simp only [joined_nil, ByteArray.empty_append]
    · simp [beforeBlock, ByteArray.append_assoc, ByteArray.empty_append]

end Encoder

namespace Zstd

open Encoder

/-- The header that the encoder writes announces blocks of the full size and nothing else. -/
def plainHeader : FrameHeader :=
  { window := maxRaw, contentSize := none, dictionary := 0, hasChecksum := false, next := 6 }

theorem blockHeader_rawBlock {src : ByteArray} {pos : Nat} {last : Bool} {bytes : ByteArray}
    (h : StandsAt src pos (rawBlock last bytes)) (hsize : bytes.size ≤ maxRaw) :
    numberAt src pos 3 = bytes.size * 8 + (if last then 1 else 0) := by
  rw [h.left.numberAt_eq]
  unfold maxRaw at hsize
  split <;> omega

theorem readBlocks_rawBlock {src : ByteArray} {pos : Nat} {last : Bool} {bytes : ByteArray}
    (fuel brink : Nat) (memory : Memory) (data : ByteArray)
    (h : StandsAt src pos (rawBlock last bytes)) (hsize : bytes.size ≤ maxRaw) :
    readBlocks src plainHeader (fuel + 1) pos brink memory data
      =
    if last then (data ++ bytes, .complete (pos + (rawBlock last bytes).size))
    else
      readBlocks src plainHeader fuel (pos + (rawBlock last bytes).size) data.size memory
        (data ++ bytes) := by
  have hle := h.le_size
  have hbytes : src.extract (pos + 3) (pos + 3 + bytes.size) = bytes := by
    have := h.right.extract_eq
    rw [size_numberBytes] at this
    exact this
  rw [size_rawBlock] at hle ⊢
  rw [readBlocks, if_neg (by omega), blockHeader_rawBlock h hsize]
  have hdiv : (bytes.size * 8 + (if last then 1 else 0)) / 8 = bytes.size := by
    split <;> omega
  have htype : (bytes.size * 8 + (if last then 1 else 0)) / 2 % 4 = 0 := by
    split <;> omega
  -- No block is longer than the window.
  have hlimit : ¬ min plainHeader.window maxBlock < bytes.size := by
    have hwindow : min plainHeader.window maxBlock = maxRaw := rfl
    omega
  simp only [hdiv, htype]
  rw [if_neg hlimit, hbytes, if_neg (by omega)]
  cases last with
  | false =>
    rw [if_pos (by simp only [Bool.false_eq_true, if_false]; omega), if_neg (by simp)]
    rw [show pos + 3 + bytes.size = pos + (bytes.size + 3) by omega]
  | true =>
    rw [if_neg (by simp only [if_true]; omega), if_neg (by simp [plainHeader]), if_pos rfl]
    rw [show pos + 3 + bytes.size = pos + (bytes.size + 3) by omega]
    rfl

theorem readBlocks_rawBlocks {src bytes : ByteArray} {count at' pos : Nat} (fuel brink : Nat)
    (memory : Memory) (data : ByteArray) (h : StandsAt src pos (rawBlocks bytes count at')) :
    ∃ brink',
      readBlocks src plainHeader (fuel + count) pos brink memory data
        =
      readBlocks src plainHeader fuel (pos + (rawBlocks bytes count at').size) brink' memory
        (data ++ bytes.extract at' (at' + count * maxRaw)) := by
  induction count generalizing at' pos brink data with
  | zero =>
    refine ⟨brink, ?_⟩
    simp [rawBlocks]
  | succ count ih =>
    have hsize : (bytes.extract at' (at' + maxRaw)).size ≤ maxRaw := by
      rw [ByteArray.size_extract]
      omega
    obtain ⟨brink', hrest⟩ := ih data.size (data ++ bytes.extract at' (at' + maxRaw)) h.right
    refine ⟨brink', ?_⟩
    rw [show fuel + (count + 1) = (fuel + count) + 1 by omega,
      readBlocks_rawBlock _ _ _ _ h.left hsize, if_neg (by simp), hrest]
    rw [rawBlocks, ByteArray.size_append, Nat.add_assoc, ByteArray.append_assoc,
      ByteArray.extract_append_extract, Nat.min_eq_left (by omega), Nat.max_eq_right (by omega)]
    rw [Nat.succ_mul, Nat.add_assoc, Nat.add_comm maxRaw]

theorem readBlocks_emit {src pending : ByteArray} {chunks : List ByteArray} {pos : Nat}
    (fuel brink : Nat) (memory : Memory) (data : ByteArray)
    (h : StandsAt src pos ((Encoder.zstd pending true).emit chunks))
    (hpending : pending.size < maxRaw)
    (hfuel : ((Encoder.zstd pending true).emit chunks).size ≤ fuel) :
    readBlocks src plainHeader fuel pos brink memory data
      =
    (data ++ pending ++ joined chunks,
      .complete (pos + ((Encoder.zstd pending true).emit chunks).size)) := by
  induction chunks generalizing pos pending fuel brink data with
  | nil =>
    simp only [emit, finish, beforeBlock, if_true, joined_cons, joined_nil,
      ByteArray.empty_append, ByteArray.append_empty] at h hfuel ⊢
    rw [size_rawBlock] at hfuel
    obtain ⟨k, rfl⟩ : ∃ k, fuel = k + 1 := ⟨fuel - 1, by omega⟩
    rw [readBlocks_rawBlock _ _ _ _ h (by omega), if_pos rfl]
  | cons chunk chunks ih =>
    simp only [emit, feed] at h hfuel ⊢
    split at h
    next hcount =>
      -- The chunk does not fill a block and is held back.
      rw [if_pos hcount] at hfuel ⊢
      simp only [joined_nil, ByteArray.empty_append] at h hfuel ⊢
      have hroom : (pending ++ chunk).size < maxRaw := by
        rcases Nat.div_eq_zero_iff.1 hcount with hzero | hlt
        · exact absurd hzero (by decide)
        · exact hlt
      rw [ih _ _ _ h hroom hfuel]
      simp only [joined_cons, ByteArray.append_assoc]
    next hcount =>
      rw [if_neg hcount] at hfuel ⊢
      simp only [beforeBlock, if_true, joined_cons, joined_nil, ByteArray.empty_append,
        ByteArray.append_empty] at h hfuel ⊢
      rw [ByteArray.size_append] at hfuel ⊢
      have hle := le_size_rawBlocks (pending ++ chunk) ((pending ++ chunk).size / maxRaw) 0
      -- Full blocks are written, and what is left of the last is held back.
      obtain ⟨k, rfl⟩ : ∃ k, fuel = k + (pending ++ chunk).size / maxRaw :=
        ⟨fuel - (pending ++ chunk).size / maxRaw, by omega⟩
      obtain ⟨brink', hfull⟩ := readBlocks_rawBlocks k brink memory data h.left
      have hmod := Nat.mod_lt (pending ++ chunk).size (y := maxRaw) (by decide)
      have hdiv := Nat.div_add_mod (pending ++ chunk).size maxRaw
      rw [Nat.mul_comm] at hdiv
      have hroom : ((pending ++ chunk).extract ((pending ++ chunk).size / maxRaw * maxRaw)
          (pending ++ chunk).size).size < maxRaw := by
        rw [ByteArray.size_extract]
        omega
      have hdata : (pending ++ chunk).extract 0 (0 + (pending ++ chunk).size / maxRaw * maxRaw)
          ++ (pending ++ chunk).extract ((pending ++ chunk).size / maxRaw * maxRaw)
            (pending ++ chunk).size
            = pending ++ chunk := by
        rw [Nat.zero_add, ByteArray.extract_append_extract, Nat.min_eq_left (Nat.zero_le _),
          Nat.max_eq_right (by omega), ByteArray.extract_zero_size]
      rw [hfull, ih _ _ _ h.right hroom (by omega), Nat.add_assoc]
      congr 1
      rw [ByteArray.append_assoc (a := data), hdata]
      simp only [ByteArray.append_assoc]

def frame (chunks : List ByteArray) : ByteArray :=
  (Encoder.zstd .empty false).emit chunks

theorem frame_eq (chunks : List ByteArray) :
    frame chunks = zstdHeader ++ (Encoder.zstd .empty true).emit chunks := by
  unfold frame
  rw [emit_zstd]

theorem zstdHeader_eq : zstdHeader = ⟨#[0x28, 0xb5, 0x2f, 0xfd, 0, 0x38]⟩ := by
  decide

theorem size_zstdHeader : zstdHeader.size = 6 := by
  rw [zstdHeader_eq]
  rfl

theorem le_size_emit (pending : ByteArray) (chunks : List ByteArray) :
    3 ≤ ((Encoder.zstd pending true).emit chunks).size := by
  induction chunks generalizing pending with
  | nil =>
    simp only [emit, finish, beforeBlock, if_true, joined_cons, joined_nil,
      ByteArray.empty_append, ByteArray.append_empty]
    rw [size_rawBlock]
    omega
  | cons chunk chunks ih =>
    simp only [emit, feed]
    rw [ByteArray.size_append]
    split
    · exact Nat.le_trans (ih _) (Nat.le_add_left _ _)
    · exact Nat.le_trans (ih _) (Nat.le_add_left _ _)

theorem numberAt_frame (chunks : List ByteArray) : numberAt (frame chunks) 0 4 = magic := by
  have h := (StandsAt.of_eq (frame_eq chunks)).left.left.left.numberAt_eq
  rw [h]
  rfl

theorem read_frame (chunks : List ByteArray) :
    FrameHeader.read (frame chunks) 0 = .ok (some plainHeader) := by
  have hle := le_size_emit .empty chunks
  have hsize : (frame chunks).size = 6 + ((Encoder.zstd .empty true).emit chunks).size := by
    rw [frame_eq, ByteArray.size_append, size_zstdHeader]
  have hheader := (StandsAt.of_eq (frame_eq chunks)).left
  rw [zstdHeader_eq] at hheader
  have hdescriptor : byteAt (frame chunks) (0 + 4) = 0 := hheader.byteAt_eq (i := 4) (by decide)
  have hwindow : byteAt (frame chunks) (0 + 5) = 0x38 := hheader.byteAt_eq (i := 5) (by decide)
  have hfields : FrameHeader.fieldSizes 0 = (1, 0, 0) := by decide
  unfold FrameHeader.read
  simp only [hdescriptor, hwindow, hfields]
  rw [if_neg (by omega)]
  simp only [numberAt]
  rfl

theorem decode_frame (chunks : List ByteArray) :
    decode (frame chunks)
      = if (joined chunks).size = 0 then .blank else Tape.blank.push (joined chunks) none := by
  have hle := le_size_emit .empty chunks
  have hsize : (frame chunks).size = 6 + ((Encoder.zstd .empty true).emit chunks).size := by
    rw [frame_eq, ByteArray.size_append, size_zstdHeader]
  have hend : decodeFrom (frame chunks) (frame chunks).size (frame chunks).size = .blank := by
    obtain ⟨k, hk⟩ : ∃ k, (frame chunks).size = k + 1 := ⟨(frame chunks).size - 1, by omega⟩
    rw [hk, decodeFrom, if_pos (Nat.le_of_eq hk)]
  have hblocks := (StandsAt.of_eq (frame_eq chunks)).right
  rw [size_zstdHeader, Nat.zero_add] at hblocks
  have hread := readBlocks_emit ((frame chunks).size + 1) 0 {} .empty hblocks (by decide) (by omega)
  rw [ByteArray.empty_append, ByteArray.empty_append, ← hsize] at hread
  unfold decode
  rw [decodeFrom, if_neg (by omega), if_neg (by omega), numberAt_frame, if_neg (by decide),
    if_neg (by simp), read_frame]
  simp only [show plainHeader.next = 6 by rfl, hread, hend]

end Zstd

end Depot.Codec
