import Depot.Files.Pathname

/-!
This module contains the theory of the length of pathnames: what is in a directory has a longer
pathname than the directory, and a longer name makes a longer pathname.
-/

namespace Depot.Files.Pathname

def width (names : List String) : Nat :=
  ("/".intercalate names).utf8ByteSize

theorem width_nil : width [] = 0 := by
  unfold width
  rw [String.intercalate_nil]
  rfl

theorem width_singleton (name : String) : width [name] = name.utf8ByteSize := by
  unfold width
  rw [String.intercalate_singleton]

theorem width_append {names more : List String} (h : names ≠ []) (h' : more ≠ []) :
    width (names ++ more) = width names + 1 + width more := by
  unfold width
  rw [String.intercalate_append_of_ne_nil h h', String.utf8ByteSize_append,
    String.utf8ByteSize_append]
  rfl

theorem width_le_append (names more : List String) : width names ≤ width (names ++ more) := by
  by_cases hnames : names = []
  · rw [hnames, width_nil]
    omega
  · by_cases hmore : more = []
    · have hwidth : width (names ++ more) = width names := by rw [hmore, List.append_nil]
      omega
    · have hwidth := width_append hnames hmore
      omega

theorem le_width_append (names more : List String) : width more ≤ width (names ++ more) := by
  by_cases hmore : more = []
  · rw [hmore, width_nil]
    omega
  · by_cases hnames : names = []
    · have hwidth : width (names ++ more) = width more := by rw [hnames, List.nil_append]
      omega
    · have hwidth := width_append hnames hmore
      omega

theorem width_concat (names : List String) (name name' : String) :
    width (names ++ [name']) + name.utf8ByteSize = width (names ++ [name]) + name'.utf8ByteSize := by
  by_cases hnames : names = []
  · rw [hnames, List.nil_append, List.nil_append, width_singleton, width_singleton]
    omega
  · rw [width_append hnames (by simp), width_append hnames (by simp), width_singleton,
      width_singleton]
    omega

theorem width_replicate (name : String) (n : Nat) :
    width (List.replicate (n + 1) name) + 1 = (n + 1) * (name.utf8ByteSize + 1) := by
  induction n with
  | zero =>
    rw [List.replicate_one, width_singleton]
    omega
  | succ n ih =>
    have hsplit : List.replicate (n + 1 + 1) name = [name] ++ List.replicate (n + 1) name := rfl
    rw [hsplit, width_append (by simp) (by simp), width_singleton, Nat.succ_mul, ← ih]
    omega

theorem dropLast_append_name {p : Pathname} (h : p.names ≠ []) :
    p.names.dropLast ++ [p.name] = p.names := by
  unfold name
  rw [List.getLastD_eq_getLast?, List.getLast?_eq_some_getLast h, Option.getD_some,
    List.dropLast_concat_getLast h]

theorem utf8ByteSize_render (p : Pathname) :
    p.render.utf8ByteSize = max 1 (p.start.render.utf8ByteSize + width p.names) := by
  unfold render width
  rw [← String.utf8ByteSize_append]
  dsimp only
  split
  next h =>
    rw [h]
    decide
  next h =>
    have hsize : (p.start.render ++ "/".intercalate p.names).utf8ByteSize ≠ 0 := by
      rw [ne_eq, String.utf8ByteSize_eq_zero_iff]
      exact h
    omega

end Depot.Files.Pathname
