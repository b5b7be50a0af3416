import Depot.Codec.Body
import Depot.Proofs.Codec.Zstd

/-!
This module contains the theory of bodies without a fault. A read of one takes some of what is left
off its front, and nothing only if nothing was asked for or nothing is left.
-/

namespace Depot.Codec

/-- Whether a read of at most `size` bytes may take `piece` off `rest` and leave `left`. -/
structure Draws (size : Nat) (rest piece left : ByteArray) : Prop where
  split : rest = piece ++ left
  le : piece.size ≤ size
  spent : piece.size = 0 → size = 0 ∨ left = .empty

theorem Draws.of_end (size : Nat) : Draws size .empty .empty .empty :=
  ⟨rfl, Nat.zero_le _, fun _ => .inr rfl⟩

theorem Draws.of_extract (bytes : ByteArray) (pos size : Nat) :
    Draws size (bytes.extract pos bytes.size) (bytes.extract pos (pos + size))
      (bytes.extract (pos + size) bytes.size) where
  split := (extract_append_rest bytes pos size).symm
  le := by
    rw [ByteArray.size_extract]
    omega
  spent := by
    intro hzero
    rw [ByteArray.size_extract] at hzero
    by_cases hsize : size = 0
    · exact .inl hsize
    · exact .inr (ByteArray.extract_eq_empty_iff.2 (by omega))

theorem Draws.append {size : Nat} {rest piece left : ByteArray} (h : Draws size rest piece left)
    (hpiece : piece.size ≠ 0) (more : ByteArray) : Draws size (rest ++ more) piece (left ++ more) where
  split := by rw [h.split, ByteArray.append_assoc]
  le := h.le
  spent hzero := absurd hzero hpiece

namespace Tape

/-- Whether reads of a tape meet no fault. -/
structure Intact (tape : Tape) : Prop where
  sound : ∀ s ∈ tape.stretches, s.fault = none ∧ s.brink = none
  ending : tape.ending = none

theorem intact_end : Intact ⟨0, [], none⟩ :=
  ⟨by simp, rfl⟩

theorem intact_push {tape : Tape} (h : tape.Intact) (bytes : ByteArray) :
    (tape.push bytes none).Intact :=
  ⟨List.forall_mem_cons.2 ⟨⟨rfl, rfl⟩, h.sound⟩, h.ending⟩

theorem foldl_bytes (stretches : List Stretch) (acc : ByteArray) :
    stretches.foldl (fun acc s => acc ++ s.bytes) acc
      = acc ++ joined (stretches.map Stretch.bytes) := by
  induction stretches generalizing acc with
  | nil => simp
  | cons s stretches ih => simp [ih, ByteArray.append_assoc]

theorem rest_cons (pos : Nat) (s : Stretch) (more : List Stretch) (ending : Option Fault) :
    rest ⟨pos, s :: more, ending⟩
      = s.bytes.extract pos s.bytes.size ++ joined (more.map Stretch.bytes) :=
  foldl_bytes more _

theorem rest_zero (stretches : List Stretch) (ending : Option Fault) :
    rest ⟨0, stretches, ending⟩ = joined (stretches.map Stretch.bytes) := by
  cases stretches with
  | nil => rfl
  | cons s more => rw [rest_cons, ByteArray.extract_zero_size, List.map_cons, joined_cons]

theorem foldl_size (stretches : List Stretch) (n : Nat) :
    stretches.foldl (fun n s => n + s.bytes.size) n
      = n + (joined (stretches.map Stretch.bytes)).size := by
  induction stretches generalizing n with
  | nil => simp
  | cons s stretches ih => simp [ih, Nat.add_assoc]

theorem size_rest_le (tape : Tape) : tape.rest.size ≤ tape.size := by
  obtain ⟨pos, stretches, ending⟩ := tape
  unfold size
  rw [foldl_size]
  cases stretches with
  | nil => exact Nat.zero_le _
  | cons s more =>
    rw [rest_cons, List.map_cons, joined_cons, ByteArray.size_append, ByteArray.size_append,
      ByteArray.size_extract]
    omega

theorem readSome_of_intact {size : Nat} (hsize : size ≠ 0) (pos : Nat) {stretches : List Stretch}
    (h : Intact ⟨pos, stretches, none⟩) :
    ∃ piece tape', readSome none size pos stretches = (.ok piece, tape') ∧ tape'.Intact
      ∧ Draws size (rest ⟨pos, stretches, none⟩) piece tape'.rest := by
  induction stretches generalizing pos with
  | nil => exact ⟨.empty, ⟨0, [], none⟩, rfl, intact_end, .of_end size⟩
  | cons s more ih =>
    obtain ⟨⟨hfault, hbrink⟩, hmore⟩ := List.forall_mem_cons.1 h.sound
    rw [readSome, hfault]
    dsimp only
    by_cases hleft : s.bytes.size - pos = 0
    · -- Nothing is left of the first stretch.
      obtain ⟨piece, tape', hread, hintact, hdraws⟩ := ih 0 ⟨hmore, rfl⟩
      refine ⟨piece, tape', ?_, hintact, ?_⟩
      · rw [if_pos hleft, hread]
      · rw [rest_cons, ByteArray.extract_eq_empty_iff.2 (by omega), ByteArray.empty_append,
          ← rest_zero more none]
        exact hdraws
    · rw [if_neg hleft, hbrink]
      refine ⟨_, _, rfl, ⟨h.sound, rfl⟩, ?_⟩
      simp only [Option.any_none, Bool.false_eq_true, if_false, rest_cons]
      have hdraws := Draws.of_extract s.bytes pos (min size (s.bytes.size - pos))
      have hsome : (s.bytes.extract pos (pos + min size (s.bytes.size - pos))).size ≠ 0 := by
        rw [ByteArray.size_extract]
        omega
      have hmore := hdraws.append hsome (joined (more.map Stretch.bytes))
      exact ⟨hmore.split, Nat.le_trans hmore.le (Nat.min_le_left _ _), fun hzero => absurd hzero hsome⟩

theorem read_of_intact {tape : Tape} (h : tape.Intact) (size : Nat) :
    ∃ piece tape', tape.read size = (.ok piece, tape') ∧ tape'.Intact
      ∧ Draws size tape.rest piece tape'.rest := by
  obtain ⟨pos, stretches, ending⟩ := tape
  obtain rfl : ending = none := h.ending
  unfold read
  split
  next hsize =>
    refine ⟨.empty, _, rfl, h, ByteArray.empty_append.symm, Nat.zero_le _, fun _ => .inl hsize⟩
  next hsize => exact readSome_of_intact hsize pos h

theorem gather_of_sound {stretches : List Stretch}
    (h : ∀ s ∈ stretches, s.fault = none ∧ s.brink = none) (acc : ByteArray) :
    gather none acc none stretches
      = (.ok (acc ++ joined (stretches.map Stretch.bytes)), ⟨0, [], none⟩) := by
  induction stretches generalizing acc with
  | nil => simp [gather]
  | cons s stretches ih =>
    rw [List.forall_mem_cons] at h
    rw [gather, h.1.1, ih h.2, ByteArray.append_assoc, List.map_cons, joined_cons]

theorem readAll_of_intact {tape : Tape} (h : tape.Intact) :
    tape.readAll = (.ok tape.rest, ⟨0, [], none⟩) := by
  obtain ⟨pos, stretches, ending⟩ := tape
  obtain rfl : ending = none := h.ending
  cases stretches with
  | nil => rfl
  | cons s more =>
    obtain ⟨hfirst, hmore⟩ := List.forall_mem_cons.1 h.sound
    simp only [readAll]
    rw [hfirst.1, gather_of_sound hmore, rest_cons]

end Tape

namespace Buffered

def rest (b : Buffered) : ByteArray :=
  b.pending ++ b.tape.rest

theorem takeBlocks_of_intact (wanted : Nat) (acc : ByteArray) {tape : Tape} (h : tape.Intact) :
    ∃ acc' ended tape', takeBlocks wanted acc tape = (.ok ⟨acc', ended⟩, tape') ∧ tape'.Intact
      ∧ acc ++ tape.rest = acc' ++ tape'.rest
      ∧ acc'.size ≤ acc.size + wanted
      ∧ (ended = true → tape'.rest = .empty)
      ∧ (ended = false → acc.size + wanted < acc'.size + blockSize) := by
  induction wanted using Nat.strongRecOn generalizing acc tape with
  | ind wanted ih =>
    rw [takeBlocks]
    by_cases hfew : wanted < blockSize
    · rw [if_pos hfew]
      exact ⟨acc, false, tape, rfl, h, rfl, Nat.le_add_right _ _, by simp, fun _ => by omega⟩
    · rw [if_neg hfew]
      obtain ⟨got, tape', hread, hintact, hdraws⟩ :=
        Tape.read_of_intact h (wanted / blockSize * blockSize)
      have hmost : got.size ≤ wanted :=
        Nat.le_trans hdraws.le (Nat.div_mul_le_self wanted blockSize)
      simp only [hread]
      by_cases hgot : got.size = 0
      · rw [if_pos hgot]
        have hblocks : wanted / blockSize * blockSize ≠ 0 := by
          unfold blockSize at *
          omega
        have hend := (hdraws.spent hgot).resolve_left hblocks
        refine ⟨acc, true, tape', rfl, hintact, ?_, Nat.le_add_right _ _, fun _ => hend, by simp⟩
        rw [hdraws.split, ByteArray.size_eq_zero_iff.1 hgot, ByteArray.empty_append]
      · rw [if_neg hgot]
        obtain ⟨acc', ended, tape'', htake, hintact', hsplit, hmore, hended, hshort⟩ :=
          ih (wanted - got.size) (by omega) (acc ++ got) hintact
        rw [ByteArray.size_append] at hmore hshort
        refine ⟨acc', ended, tape'', htake, hintact', ?_, by omega, hended, ?_⟩
        · rw [← hsplit, hdraws.split, ByteArray.append_assoc]
        · intro hopen
          have := hshort hopen
          omega

theorem fill_of_intact (wanted filled : Nat) (acc : ByteArray) {tape : Tape} (h : tape.Intact)
    (hroom : filled + wanted < blockSize) :
    ∃ acc' b, fill wanted filled acc tape = (.ok acc', b) ∧ b.tape.Intact
      ∧ acc ++ tape.rest = acc' ++ b.rest
      ∧ acc'.size ≤ acc.size + wanted
      ∧ (acc'.size < acc.size + wanted → b.rest = .empty) := by
  induction wanted using Nat.strongRecOn generalizing filled acc tape with
  | ind wanted ih =>
    rw [fill]
    by_cases hdone : wanted = 0
    · rw [if_pos (by simp [hdone])]
      exact ⟨acc, _, rfl, h, by simp [rest], Nat.le_add_right _ _, by omega⟩
    · rw [if_neg (by simp; omega)]
      obtain ⟨got, tape', hread, hintact, hdraws⟩ := Tape.read_of_intact h (blockSize - filled)
      simp only [hread]
      by_cases hgot : got.size = 0
      · rw [if_pos hgot]
        have hend := (hdraws.spent hgot).resolve_left (by omega)
        refine ⟨acc, _, rfl, hintact, ?_, Nat.le_add_right _ _, fun _ => ?_⟩
        · rw [hdraws.split, ByteArray.size_eq_zero_iff.1 hgot, rest, ByteArray.empty_append]
        · rw [rest, hend, ByteArray.empty_append]
      · rw [if_neg hgot]
        by_cases henough : wanted ≤ got.size
        · rw [if_pos henough]
          have hcut := extract_append_rest got 0 wanted
          rw [Nat.zero_add, ByteArray.extract_zero_size] at hcut
          refine ⟨_, _, rfl, hintact, ?_, ?_, fun hless => ?_⟩
          · rw [hdraws.split, rest, ← ByteArray.append_assoc (a := acc ++ _),
              ByteArray.append_assoc (a := acc), hcut, ByteArray.append_assoc]
          all_goals
            rw [ByteArray.size_append, ByteArray.size_extract] at *
            omega
        · rw [if_neg henough]
          obtain ⟨acc', b, hfill, hintact', hsplit, hmost, hend⟩ :=
            ih (wanted - got.size) (by omega) (filled + got.size) (acc ++ got) hintact (by omega)
          rw [ByteArray.size_append] at hmost hend
          refine ⟨acc', b, hfill, hintact', ?_, by omega, fun hless => hend (by omega)⟩
          rw [← hsplit, hdraws.split, ByteArray.append_assoc]

theorem read_of_intact {b : Buffered} (h : b.tape.Intact) (size : Nat) :
    ∃ piece b', b.read size = (.ok piece, b') ∧ b'.tape.Intact ∧ Draws size b.rest piece b'.rest := by
  unfold read
  by_cases hpending : size ≤ b.pending.size
  · rw [if_pos hpending]
    have hcut := extract_append_rest b.pending 0 size
    rw [Nat.zero_add, ByteArray.extract_zero_size] at hcut
    refine ⟨_, _, rfl, h, ?_, ?_, ?_⟩
    · rw [rest, rest, ← ByteArray.append_assoc, hcut]
    all_goals
      rw [ByteArray.size_extract]
      omega
  · rw [if_neg hpending]
    obtain ⟨acc, ended, tape, htake, hintact, hsplit, hmost, hended, hshort⟩ :=
      takeBlocks_of_intact (size - b.pending.size) b.pending h
    simp only [htake]
    cases ended with
    | true =>
      refine ⟨acc, _, rfl, hintact, ?_, by omega, fun _ => .inr ?_⟩
      · rw [rest, hsplit, rest, ByteArray.empty_append]
      · rw [rest, hended rfl, ByteArray.empty_append]
    | false =>
      have hroom := hshort rfl
      obtain ⟨acc', b', hfill, hintact', hsplit', hmost', hend⟩ :=
        fill_of_intact (size - acc.size) 0 acc hintact (by omega)
      refine ⟨acc', b', hfill, hintact', ?_, by omega, fun hzero => .inr (hend (by omega))⟩
      rw [rest, hsplit, hsplit']

end Buffered

namespace Body

/-- Whether `rest` is left to read of a body, and no fault is met on the way. -/
def Holds : Body → ByteArray → Prop
  | .plain bytes pos, rest => bytes.extract pos bytes.size = rest
  | .gzip b, rest => b.tape.Intact ∧ b.rest = rest
  | .zstd tape, rest => tape.Intact ∧ tape.rest = rest

variable {body : Body} {rest : ByteArray}

theorem Holds.size_le_left (h : body.Holds rest) : rest.size ≤ body.left := by
  cases body with
  | plain bytes pos =>
    obtain rfl := h
    rw [left, ByteArray.size_extract]
    omega
  | gzip b =>
    obtain ⟨-, rfl⟩ := h
    have := b.tape.size_rest_le
    rw [left, Buffered.rest, ByteArray.size_append]
    omega
  | zstd tape =>
    obtain ⟨-, rfl⟩ := h
    exact tape.size_rest_le

theorem Holds.read (h : body.Holds rest) (size : Nat) :
    ∃ piece body' left, body.read size = (.ok piece, body') ∧ body'.Holds left
      ∧ Draws size rest piece left := by
  cases body with
  | plain bytes pos =>
    obtain rfl := h
    refine ⟨_, _, bytes.extract (pos + size) bytes.size, rfl, ?_, .of_extract bytes pos size⟩
    change bytes.extract (min (pos + size) (max pos bytes.size)) bytes.size = _
    by_cases hle : pos + size ≤ bytes.size
    · rw [Nat.min_eq_left (by omega)]
    · rw [ByteArray.extract_eq_empty_iff.2 (by omega), ByteArray.extract_eq_empty_iff.2 (by omega)]
  | gzip b =>
    obtain ⟨hintact, rfl⟩ := h
    obtain ⟨piece, b', hread, hintact', hdraws⟩ := Buffered.read_of_intact hintact size
    refine ⟨piece, .gzip b', b'.rest, ?_, ⟨hintact', rfl⟩, hdraws⟩
    simp only [Body.read, hread]
  | zstd tape =>
    obtain ⟨hintact, rfl⟩ := h
    obtain ⟨piece, tape', hread, hintact', hdraws⟩ := Tape.read_of_intact hintact size
    refine ⟨piece, .zstd tape', tape'.rest, ?_, ⟨hintact', rfl⟩, hdraws⟩
    simp only [Body.read, hread]

theorem Holds.readAll (h : body.Holds rest) :
    ∃ body', body.readAll = (.ok rest, body') ∧ body'.Holds .empty := by
  cases body with
  | plain bytes pos =>
    obtain rfl := h
    exact ⟨_, rfl, ByteArray.extract_eq_empty_iff.2 (by omega)⟩
  | gzip b =>
    obtain ⟨hintact, rfl⟩ := h
    refine ⟨.gzip ⟨.empty, ⟨0, [], none⟩⟩, ?_, Tape.intact_end, rfl⟩
    simp only [Body.readAll, Buffered.readAll, Tape.readAll_of_intact hintact, Buffered.rest]
  | zstd tape =>
    obtain ⟨hintact, rfl⟩ := h
    refine ⟨.zstd ⟨0, [], none⟩, ?_, Tape.intact_end, rfl⟩
    simp only [Body.readAll, Tape.readAll_of_intact hintact]

end Body

end Depot.Codec
