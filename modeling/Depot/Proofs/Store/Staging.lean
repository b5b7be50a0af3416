import Depot.Proofs.Files.Follow
import Depot.Store.Files
import Mathlib.Algebra.Group.Nat.Defs

/-!
This module contains the theory of the names of staging files: different numbers give different
names, so that there is always one that no file has.
-/

namespace Depot

namespace Text

theorem hexDigit_injective {m n : Nat} (hm : m < 16) (hn : n < 16) (h : hexDigit m = hexDigit n) :
    m = n := by
  have hall : ∀ m < 16, ∀ n < 16, hexDigit m = hexDigit n → m = n := by decide
  exact hall m hm n hn h

theorem hexPadded_injective {width m n : Nat} (hm : m < 16 ^ width) (hn : n < 16 ^ width)
    (h : hexPadded width m = hexPadded width n) : m = n := by
  induction width generalizing m n with
  | zero =>
    rw [Nat.pow_zero] at hm hn
    omega
  | succ width ih =>
    rw [Nat.pow_succ] at hm hn
    unfold hexPadded at h
    obtain ⟨hfront, hlast⟩ := List.append_inj' h rfl
    have hquot : m / 16 = n / 16 := ih (by omega) (by omega) hfront
    have hrem : m % 16 = n % 16 := by
      apply hexDigit_injective (by omega) (by omega)
      exact List.head_eq_of_cons_eq hlast
    omega

theorem utf8Size_hexDigit {n : Nat} (h : n < 16) : (hexDigit n).utf8Size = 1 := by
  have hall : ∀ n < 16, (hexDigit n).utf8Size = 1 := by decide
  exact hall n h

theorem utf8ByteSize_hexPadded (width n : Nat) :
    (String.ofList (hexPadded width n)).utf8ByteSize = width := by
  induction width generalizing n with
  | zero => rfl
  | succ width ih =>
    have hdigit : (String.ofList [hexDigit (n % 16)]).utf8ByteSize = 1 := by
      rw [← String.singleton_eq_ofList, String.utf8ByteSize_singleton]
      exact utf8Size_hexDigit (by omega)
    unfold hexPadded
    rw [String.ofList_append, String.utf8ByteSize_append, ih, hdigit]

end Text

namespace Store.Files

open Depot.Files

def stagingNumeral (number : Nat) : List Char :=
  Text.hexPadded (stagingDigits + number / stagingNumbers) number

theorem length_stagingNumeral (number : Nat) :
    (stagingNumeral number).length = stagingDigits + number / stagingNumbers :=
  Text.length_hexPadded _ _

theorem lt_pow_stagingNumeral (number : Nat) :
    number < 16 ^ (stagingDigits + number / stagingNumbers) := by
  have hdigit : 0 < 16 ^ stagingDigits := Nat.pow_pos (by decide)
  have hmore : number / stagingNumbers < 16 ^ (number / stagingNumbers) :=
    Nat.lt_pow_self (by decide)
  rw [Nat.pow_add, Nat.mul_comm]
  exact (Nat.div_lt_iff_lt_mul hdigit).1 hmore

theorem stagingNumeral_injective {m n : Nat} (h : stagingNumeral m = stagingNumeral n) : m = n := by
  have hlength := congrArg List.length h
  rw [length_stagingNumeral, length_stagingNumeral] at hlength
  have hn := lt_pow_stagingNumeral n
  rw [← hlength] at hn
  apply Text.hexPadded_injective (lt_pow_stagingNumeral m) hn
  unfold stagingNumeral at h
  rw [h, hlength]

theorem stagingName_eq (name : String) (number : Nat) :
    stagingName name number
      =
    stagingStart ++ name ++ "." ++ String.ofList (stagingNumeral number) ++ stagingEnd := rfl

theorem stagingName_injective {name : String} {m n : Nat}
    (h : stagingName name m = stagingName name n) : m = n := by
  rw [stagingName_eq, stagingName_eq, String.append_left_inj, String.append_right_inj,
    String.ofList_inj] at h
  exact stagingNumeral_injective h

theorem exists_fresh (name : String) (taken : List String) :
    ∃ number ∈ List.range (taken.length + 1), stagingName name number ∉ taken := by
  apply Classical.byContradiction
  intro hnone
  have hsubset : (List.range (taken.length + 1)).map (stagingName name) ⊆ taken := by
    intro text htext
    obtain ⟨number, hnumber, rfl⟩ := List.mem_map.1 htext
    apply Classical.byContradiction
    intro hfresh
    exact hnone ⟨number, hnumber, hfresh⟩
  have hnodup : ((List.range (taken.length + 1)).map (stagingName name)).Nodup := by
    rw [List.Nodup, List.pairwise_map]
    apply List.nodup_range.imp
    intro m n hne heq
    exact hne (stagingName_injective heq)
  have hlength := hnodup.length_le_of_subset hsubset
  rw [List.length_map, List.length_range] at hlength
  omega

theorem mem_taken_iff (tree : Tree) (text : String) :
    text ∈ tree.nodes.keys.filterMap List.head?
      ↔ ∃ directory, tree.get? (text :: directory) ≠ none := by
  have hget : ∀ directory, tree.get? (text :: directory) = tree.nodes.get? (text :: directory) :=
    fun directory => if_neg (by simp)
  simp only [hget, List.mem_filterMap, Table.mem_keys_iff, ← Option.isSome_iff_ne_none]
  constructor
  · rintro ⟨place, hplace, hhead⟩
    cases place with
    | nil => cases hhead
    | cons first directory =>
      cases hhead
      exact ⟨directory, hplace⟩
  · rintro ⟨directory, hplace⟩
    exact ⟨text :: directory, hplace, rfl⟩

theorem freshStaging_spec (tree : Tree) (p : Pathname) :
    ∃ number, freshStaging tree p = stagingName p.name number
      ∧ (∀ directory, tree.get? (freshStaging tree p :: directory) = none)
      ∧ ∀ lesser < number, ∃ directory, tree.get? (stagingName p.name lesser :: directory) ≠ none := by
  obtain ⟨fresh, hrange, hfresh⟩ := exists_fresh p.name (tree.nodes.keys.filterMap List.head?)
  have hsome : ((List.range ((tree.nodes.keys.filterMap List.head?).length + 1)).find? fun n =>
      !(tree.nodes.keys.filterMap List.head?).contains (stagingName p.name n)).isSome := by
    rw [List.find?_isSome]
    exact ⟨fresh, hrange, by simpa using hfresh⟩
  -- One more number is tried than there are names.
  obtain ⟨number, hnumber⟩ := Option.isSome_iff_exists.1 hsome
  have hname : freshStaging tree p = stagingName p.name number := by
    unfold freshStaging
    dsimp only
    rw [hnumber]
    rfl
  obtain ⟨hfree, -, hleast⟩ := List.find?_range_eq_some.1 hnumber
  refine ⟨number, hname, ?_, ?_⟩
  · intro directory
    have huntaken : stagingName p.name number ∉ tree.nodes.keys.filterMap List.head? := by
      simpa using hfree
    rw [mem_taken_iff, not_exists] at huntaken
    rw [hname]
    exact Classical.not_not.1 (huntaken directory)
  · intro lesser hlesser
    have htaken : stagingName p.name lesser ∈ tree.nodes.keys.filterMap List.head? := by
      simpa using hleast lesser hlesser
    exact (mem_taken_iff tree _).1 htaken

theorem freshStaging_le {tree : Tree} {p : Pathname} {token : Nat}
    (h : ∀ directory, tree.get? (stagingName p.name token :: directory) = none) :
    ∃ number ≤ token, freshStaging tree p = stagingName p.name number := by
  obtain ⟨number, hname, -, hleast⟩ := freshStaging_spec tree p
  refine ⟨number, ?_, hname⟩
  apply Nat.le_of_not_lt
  intro hlesser
  obtain ⟨directory, htaken⟩ := hleast token hlesser
  exact htaken (h directory)

theorem toList_stagingName (name : String) (number : Nat) :
    (stagingName name number).toList
      =
    stagingStart.toList ++ (name.toList ++ '.' :: stagingNumeral number) ++ stagingEnd.toList := by
  rw [stagingName_eq]
  simp

theorem isDots_stagingName (name : String) (number : Nat) :
    Tree.isDots (stagingName name number) = false := by
  unfold Tree.isDots
  rw [Bool.or_eq_false_iff, decide_eq_false_iff_not, decide_eq_false_iff_not]
  constructor
  · intro h
    have hlength := congrArg (fun s => s.toList.length) h
    simp [toList_stagingName, stagingStart, stagingEnd] at hlength
  · intro h
    have hlength := congrArg (fun s => s.toList.length) h
    simp [toList_stagingName, stagingStart, stagingEnd] at hlength

theorem isStaging_stagingName (name : String) (number : Nat) :
    isStaging (stagingName name number) = true := by
  unfold isStaging Text.startsWith Text.endsWith
  rw [Bool.and_eq_true, List.isPrefixOf_iff_prefix, List.isSuffixOf_iff_suffix, toList_stagingName]
  constructor
  · rw [List.append_assoc]
    exact List.prefix_append _ _
  · exact List.suffix_append _ _

theorem utf8ByteSize_stagingName (name : String) (number : Nat) :
    (stagingName name number).utf8ByteSize
      =
    name.utf8ByteSize + 15 + (String.ofList (stagingNumeral number)).utf8ByteSize := by
  rw [stagingName_eq]
  simp only [String.utf8ByteSize_append]
  have hstart : stagingStart.utf8ByteSize = 10 := by decide
  have hdot : ".".utf8ByteSize = 1 := by decide
  have hend : stagingEnd.utf8ByteSize = 4 := by decide
  omega

/-- How much longer the name of a staging file is, unless its number needs more digits. -/
def stagingMargin : Nat := 15 + stagingDigits

theorem utf8ByteSize_stagingName_of_lt {number : Nat} (h : number < stagingNumbers)
    (name : String) :
    (stagingName name number).utf8ByteSize = name.utf8ByteSize + stagingMargin := by
  rw [utf8ByteSize_stagingName]
  unfold stagingNumeral stagingMargin
  rw [Nat.div_eq_of_lt h, Nat.add_zero, Text.utf8ByteSize_hexPadded]
  omega

end Store.Files

end Depot
