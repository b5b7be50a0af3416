import Mathlib.Data.List.TakeWhile
import Depot.Text.Blank

/-!
This module contains the theory of removing what is around a text: what is left has nothing to be
removed.
-/

namespace Depot.Text

variable {p : Char → Bool} {cs : List Char} {s : String}

def Snug (p : Char → Bool) (cs : List Char) : Prop :=
  (∀ c, cs.head? = some c → p c = false) ∧ ∀ c, cs.getLast? = some c → p c = false

theorem eq_false_of_head?_dropWhile {c : Char} (h : (cs.dropWhile p).head? = some c) : p c = false := by
  have hfirst := List.head?_dropWhile_not p cs
  rw [h] at hfirst
  exact hfirst

theorem dropWhile_eq_self (h : ∀ c, cs.head? = some c → p c = false) : cs.dropWhile p = cs := by
  cases cs with
  | nil => rfl
  | cons c cs =>
    apply List.dropWhile_cons_of_neg
    rw [h c rfl]
    exact Bool.false_ne_true

theorem snug_trim (p : Char → Bool) (cs : List Char) : Snug p (trim p cs) := by
  unfold trim dropWhileEnd
  constructor
  · intro c hc
    -- The trimmed list starts what is left of the list without the characters at its start.
    have hbegins : ((cs.dropWhile p).reverse.dropWhile p).reverse <+: cs.dropWhile p := by
      rw [← List.reverse_suffix, List.reverse_reverse]
      exact List.dropWhile_suffix p
    obtain ⟨rest, hrest⟩ := hbegins
    apply eq_false_of_head?_dropWhile
    rw [← hrest, List.head?_append, hc]
    rfl
  · intro c hc
    rw [List.getLast?_reverse] at hc
    exact eq_false_of_head?_dropWhile hc

theorem Snug.trim_eq (h : Snug p cs) : trim p cs = cs := by
  have hlast : ∀ c, cs.reverse.head? = some c → p c = false := by
    intro c hc
    rw [List.head?_reverse] at hc
    exact h.2 c hc
  unfold trim dropWhileEnd
  rw [dropWhile_eq_self h.1, dropWhile_eq_self hlast, List.reverse_reverse]

theorem dropWhileEnd_append_of_pos {tail : List Char} (h : ∀ c ∈ tail, p c = true) :
    dropWhileEnd p (cs ++ tail) = dropWhileEnd p cs := by
  unfold dropWhileEnd
  rw [List.reverse_append, List.dropWhile_append_of_pos]
  intro c hc
  exact h c (List.mem_reverse.1 hc)

theorem trim_append {lead tail : List Char} (hlead : ∀ c ∈ lead, p c = true)
    (htail : ∀ c ∈ tail, p c = true) : trim p (lead ++ (cs ++ tail)) = trim p cs := by
  unfold trim
  rw [List.dropWhile_append_of_pos hlead, List.dropWhile_append]
  split
  next hempty => rw [List.dropWhile_eq_nil_iff.2 htail, List.isEmpty_iff.1 hempty]
  · exact dropWhileEnd_append_of_pos htail

def Stripped (s : String) : Prop :=
  Snug isBlank s.toList

theorem stripped_strip (s : String) : Stripped (strip s) := by
  unfold Stripped strip
  rw [String.toList_ofList]
  exact snug_trim isBlank s.toList

theorem Stripped.strip_eq (h : Stripped s) : strip s = s := by
  unfold strip
  rw [h.trim_eq, String.ofList_toList]

theorem strip_eq_iff : strip s = s ↔ Stripped s := by
  refine ⟨fun h => ?_, Stripped.strip_eq⟩
  rw [← h]
  exact stripped_strip s

instance (s : String) : Decidable (Stripped s) :=
  decidable_of_iff (strip s = s) strip_eq_iff

theorem strip_ofList {lead tail : List Char} (h : Stripped s) (hlead : ∀ c ∈ lead, isBlank c = true)
    (htail : ∀ c ∈ tail, isBlank c = true) :
    strip (String.ofList (lead ++ (s.toList ++ tail))) = s := by
  unfold strip
  rw [String.toList_ofList, trim_append hlead htail, h.trim_eq, String.ofList_toList]

theorem strip_of_blank (h : ∀ c ∈ cs, isBlank c = true) : strip (String.ofList cs) = "" := by
  unfold strip trim
  rw [String.toList_ofList, List.dropWhile_eq_nil_iff.2 h]
  rfl

theorem mem_of_mem_strip {c : Char} (h : c ∈ (strip (String.ofList cs)).toList) : c ∈ cs := by
  unfold strip trim dropWhileEnd at h
  rw [String.toList_ofList, String.toList_ofList, List.mem_reverse] at h
  have hdropped := (List.dropWhile_suffix isBlank).subset h
  exact (List.dropWhile_suffix isBlank).subset (List.mem_reverse.1 hdropped)

end Depot.Text
