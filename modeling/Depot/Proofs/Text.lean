import Depot.Text.Basic

/-!
This module contains the theory of what a text starts and ends with, and of cutting that off.
-/

namespace Depot.Text

theorem afterPrefix?_append (lead rest : List Char) : afterPrefix? lead (lead ++ rest) = some rest := by
  induction lead with
  | nil => rfl
  | cons c lead ih =>
    rw [List.cons_append, afterPrefix?, if_pos rfl]
    exact ih

theorem afterPrefix?_of_head {c : Char} {cs : List Char} (h : cs.head? ≠ some c)
    (lead : List Char) : afterPrefix? (c :: lead) cs = none := by
  cases cs with
  | nil => rfl
  | cons c' cs =>
    rw [afterPrefix?, if_neg]
    rintro rfl
    exact h rfl

theorem dropPrefix_append (lead rest : String) : dropPrefix lead (lead ++ rest) = rest := by
  unfold dropPrefix
  rw [String.toList_append, afterPrefix?_append]
  exact String.ofList_toList

theorem dropSuffix_append (tail front : String) : dropSuffix tail (front ++ tail) = front := by
  unfold dropSuffix beforeSuffix?
  rw [String.toList_append, List.reverse_append, afterPrefix?_append]
  dsimp only [Option.map_some]
  rw [List.reverse_reverse]
  exact String.ofList_toList

theorem dropPrefix_of_head {c : Char} {s : String} (h : s.toList.head? ≠ some c) (lead : List Char) :
    dropPrefix (String.ofList (c :: lead)) s = s := by
  unfold dropPrefix
  rw [String.toList_ofList, afterPrefix?_of_head h]

theorem eq_append_of_afterPrefix? {lead cs rest : List Char}
    (h : afterPrefix? lead cs = some rest) : cs = lead ++ rest := by
  induction lead generalizing cs with
  | nil => exact Option.some.inj h
  | cons l lead ih =>
    cases cs with
    | nil => cases h
    | cons c cs =>
      rw [afterPrefix?] at h
      split at h
      next hsame => rw [hsame, List.cons_append, ← ih h]
      · cases h

theorem dropPrefix_cases (lead s : String) :
    dropPrefix lead s = s ∨ ∃ rest, s = lead ++ rest ∧ dropPrefix lead s = rest := by
  unfold dropPrefix
  cases hrest : afterPrefix? lead.toList s.toList with
  | none => exact .inl rfl
  | some rest =>
    refine .inr ⟨String.ofList rest, ?_, rfl⟩
    rw [← String.toList_inj, String.toList_append, String.toList_ofList]
    exact eq_append_of_afterPrefix? hrest

theorem dropSuffix_of_not {tail s : String} (h : Text.endsWith tail s = false) :
    dropSuffix tail s = s := by
  unfold dropSuffix
  split
  next rest hrest =>
    unfold beforeSuffix? at hrest
    rw [Option.map_eq_some_iff] at hrest
    obtain ⟨front, hfront, -⟩ := hrest
    have happend := eq_append_of_afterPrefix? hfront
    rw [List.reverse_eq_iff, List.reverse_append, List.reverse_reverse] at happend
    have hends : Text.endsWith tail s = true := by
      unfold endsWith
      rw [List.isSuffixOf_iff_suffix, happend]
      exact List.suffix_append _ _
    rw [h] at hends
    cases hends
  · rfl

theorem exists_of_endsWith {tail s : String} (h : Text.endsWith tail s = true) :
    ∃ front, s = front ++ tail := by
  unfold endsWith at h
  rw [List.isSuffixOf_iff_suffix] at h
  obtain ⟨front, hfront⟩ := h
  refine ⟨String.ofList front, ?_⟩
  rw [← String.toList_inj, String.toList_append, String.toList_ofList, hfront]

theorem endsWith_append (front tail : String) : endsWith tail (front ++ tail) = true := by
  unfold endsWith
  rw [List.isSuffixOf_iff_suffix, String.toList_append]
  exact List.suffix_append _ _

section Order

theorem chars_append_lt_append_iff {front cs ds : List Char} :
    front ++ cs < front ++ ds ↔ cs < ds := by
  induction front with
  | nil => rfl
  | cons c front ih =>
    rw [List.cons_append, List.cons_append, List.cons_lt_cons_iff, ih]
    simp

theorem chars_lt_append_iff {cs front more : List Char} :
    cs < front ++ more ↔ cs < front ∨ ∃ rest, cs = front ++ rest ∧ rest < more := by
  induction front generalizing cs with
  | nil => simp
  | cons c front ih =>
    cases cs with
    | nil => simp
    | cons d cs =>
      rw [List.cons_append, List.cons_lt_cons_iff, List.cons_lt_cons_iff, ih]
      simp only [List.cons_append, List.cons.injEq]
      constructor
      · rintro (hlt | ⟨rfl, hlt | ⟨rest, rfl, hrest⟩⟩)
        · exact .inl (.inl hlt)
        · exact .inl (.inr ⟨rfl, hlt⟩)
        · exact .inr ⟨rest, ⟨rfl, rfl⟩, hrest⟩
      · rintro ((hlt | ⟨rfl, hlt⟩) | ⟨rest, ⟨rfl, rfl⟩, hrest⟩)
        · exact .inl hlt
        · exact .inr ⟨rfl, .inl hlt⟩
        · exact .inr ⟨rfl, .inr ⟨rest, rfl, hrest⟩⟩

theorem append_lt_append_iff {front s t : String} : front ++ s < front ++ t ↔ s < t := by
  rw [String.lt_iff, String.lt_iff, String.toList_append, String.toList_append,
    chars_append_lt_append_iff]

theorem lt_append_iff {s front more : String} :
    s < front ++ more ↔ s < front ∨ ∃ rest, s = front ++ rest ∧ rest < more := by
  rw [String.lt_iff, String.toList_append, chars_lt_append_iff, ← String.lt_iff]
  apply or_congr_right
  constructor
  · rintro ⟨rest, hsame, hrest⟩
    refine ⟨String.ofList rest, ?_, ?_⟩
    · rw [← String.toList_inj, hsame, String.toList_append, String.toList_ofList]
    · rw [String.lt_iff, String.toList_ofList]
      exact hrest
  · rintro ⟨rest, rfl, hrest⟩
    exact ⟨rest.toList, String.toList_append, String.lt_iff.1 hrest⟩

theorem not_append_lt (front rest : String) : ¬front ++ rest < front := by
  intro hlt
  have hself : front ++ rest < front ++ rest := lt_append_iff.2 (.inl hlt)
  exact String.lt_irrefl _ hself

end Order

end Depot.Text
