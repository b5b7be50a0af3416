import Depot.Proofs.Keys
import Depot.Proofs.Path.Query
import Depot.Proofs.Store.Listing

/-!
This module contains the theory of the bounds of a listing below a clean base: what is asked of the
keys there is what is asked of the names, behind the base.
-/

namespace Depot

open Depot.Path

theorem Text.startsWith_append_iff (front : String) {lead text : String} :
    startsWith (front ++ lead) (front ++ text) = true ↔ startsWith lead text = true := by
  unfold startsWith
  rw [List.isPrefixOf_iff_prefix, List.isPrefixOf_iff_prefix, String.toList_append,
    String.toList_append, List.prefix_append_right_inj]

namespace Path

variable {under start : String}

/-- Whether a text asks for all there is, or for what a clean path starts; a slash may be behind it. -/
def Asks (under : String) : Prop :=
  under = "" ∨ Relative under ∨ ∃ way, Relative way ∧ under = way ++ "/"

def opened (under : String) : String :=
  if under = "" ∨ Text.endsWith "/" under = true then under else under ++ "/"

theorem Relative.endsWith_eq (h : Relative under) : Text.endsWith "/" under = false := by
  rw [endsWith_slash, decide_eq_false_iff_not, ← Text.joinWith_splitOn '/' under.toList]
  exact Text.getLast?_joinWith (fun c hc => (h c hc).nonempty) fun c hc => (h c hc).slashless

theorem opened_of_relative (h : Relative under) : opened under = under ++ "/" := by
  unfold opened
  rw [h.endsWith_eq, if_neg]
  simp [h.ne_empty]

theorem opened_append_slash (way : String) : opened (way ++ "/") = way ++ "/" :=
  if_pos (.inr (Text.endsWith_append way "/"))

theorem fields_slash (text : String) :
    Text.fields '/' (text ++ "/").toList = Text.fields '/' text.toList := by
  rw [String.toList_append]
  exact Text.fields_append_sep '/' text.toList

theorem cleanJoin_of_relative {way : String} (hway : Relative way) (hstart : Relative start) :
    cleanJoin [way, start] = way ++ "/" ++ start := by
  have houtline : outline way = Text.splitOn '/' way.toList := (settled_of_plain hway).normalize_eq
  rw [cleanJoin_relative hway.head?_ne hstart, houtline, ← String.toList_inj, String.toList_ofList,
    Text.joinWith_append (Text.splitOn_ne_nil _ _) (Text.splitOn_ne_nil _ _), Text.joinWith_splitOn,
    Text.joinWith_splitOn]
  simp

namespace Asks

theorem head?_ne (h : Asks under) : under.toList.head? ≠ some '/' := by
  rcases h with rfl | hrelative | ⟨way, hway, rfl⟩
  · simp
  · exact hrelative.head?_ne
  · rw [String.toList_append]
    exact head?_append_slash (toList_ne_nil hway.ne_empty) hway.head?_ne []

theorem cleanJoin_eq (h : Asks under) (hstart : Relative start) :
    cleanJoin [under, start] = opened under ++ start := by
  rcases h with rfl | hrelative | ⟨way, hway, rfl⟩
  · rw [cleanJoin_relative (by simp) hstart, outline_empty, List.nil_append, Text.joinWith_splitOn,
      String.ofList_toList]
    exact (String.empty_append).symm
  · rw [cleanJoin_of_relative hrelative hstart, opened_of_relative hrelative]
  · rw [opened_append_slash, ← cleanJoin_of_relative hway hstart]
    apply cleanJoin_congr (head?_ne (.inr (.inr ⟨way, hway, rfl⟩))) (fun _ => hstart.head?_ne)
      (.inr hstart.ne_empty) hway.head?_ne (fun _ => hstart.head?_ne) (.inr hstart.ne_empty)
    rw [fields_slash]

end Asks

end Path

namespace Location

variable {location : Location} {under text : String}

theorem behind_of_ne (h : location.keyPrefix ≠ "") (text : String) :
    location.behind text = location.keyPrefix ++ "/" ++ text :=
  if_neg h

theorem startsWith_behind_iff (location : Location) :
    Text.startsWith (location.behind under) (location.behind text) = true
      ↔ Text.startsWith under text = true := by
  unfold behind
  split
  · rfl
  · exact Text.startsWith_append_iff _

namespace Clean

variable (hbase : location.Clean)

include hbase

theorem cleanJoin_queryBase (h : Relative text) :
    cleanJoin [queryBase location.keyPrefix, text] = location.behind text := by
  have hslash := location.head?_keyPrefix
  have hjoin : cleanJoin [queryBase location.keyPrefix, text]
      = cleanJoin [location.keyPrefix, text] := by
    apply cleanJoin_congr (head?_queryBase hslash) (fun _ => h.head?_ne) (.inr h.ne_empty) hslash
      (fun _ => h.head?_ne) (.inr h.ne_empty)
    rw [fields_queryBase]
  rw [hjoin, ← String.toList_inj, cleanJoin_relative hslash h, String.toList_ofList,
    hbase.toList_behind]
  rfl

theorem queryPrefix_eq (h : Asks under) :
    queryPrefix location.keyPrefix under = location.behind under := by
  rcases h with rfl | hrelative | ⟨way, hway, rfl⟩
  · rw [queryPrefix_empty]
    unfold queryBase behind
    rw [String.append_empty]
  · rw [queryPrefix_of_ne _ hrelative.ne_empty, hrelative.endsWith_eq, if_neg Bool.false_ne_true,
      cleanJoin_queryBase hbase hrelative]
  · have hne : way ++ "/" ≠ "" := by simp
    have hslash : cleanJoin [queryBase location.keyPrefix, way ++ "/"]
        = cleanJoin [queryBase location.keyPrefix, way] := by
      have hhead := Asks.head?_ne (.inr (.inr ⟨way, hway, rfl⟩))
      apply cleanJoin_congr (head?_queryBase location.head?_keyPrefix) (fun _ => hhead) (.inr hne)
        (head?_queryBase location.head?_keyPrefix) (fun _ => hway.head?_ne) (.inr hway.ne_empty)
      rw [fields_slash]
    rw [queryPrefix_of_ne _ hne, Text.endsWith_append, if_pos rfl, hslash,
      cleanJoin_queryBase hbase hway]
    unfold behind
    split
    · rfl
    · rw [String.append_assoc]

theorem asks_behind (h : Asks under) : Asks (location.behind under) := by
  by_cases hempty : location.keyPrefix = ""
  · unfold behind
    rw [if_pos hempty]
    exact h
  · have hrelative : Relative location.keyPrefix := hbase.resolve_left hempty
    rw [behind_of_ne hempty]
    rcases h with rfl | hunder | ⟨way, hway, rfl⟩
    · exact .inr (.inr ⟨location.keyPrefix, hrelative, by rw [String.append_empty]⟩)
    · exact .inr (.inl (hrelative.append_slash hunder))
    · exact .inr (.inr ⟨_, hrelative.append_slash hway, (String.append_assoc).symm⟩)

end Clean

theorem opened_behind (location : Location) (under : String) :
    opened (location.behind under) = location.behind (opened under) := by
  by_cases hempty : location.keyPrefix = ""
  · unfold behind
    rw [if_pos hempty, if_pos hempty]
  · rw [behind_of_ne hempty, behind_of_ne hempty]
    by_cases hunder : under = ""
    · rw [hunder, String.append_empty, opened_append_slash]
      exact (String.append_empty).symm
    · unfold opened
      rw [endsWith_slash_append _ hunder]
      simp only [hunder, append_slash_ne, false_or]
      split
      · rfl
      · rw [String.append_assoc]

theorem behind_append (location : Location) (text more : String) :
    location.behind (text ++ more) = location.behind text ++ more := by
  unfold behind
  split
  · rfl
  · rw [← String.append_assoc]

end Location

namespace Naming

variable {naming : Naming} {under start name : String}

/--
The bounds of a listing are those of the names, behind the base: a key starts with the text of the
listing exactly if its name with the extension starts with what is asked for, and it is before the
offset exactly if that name is before the one that the walk starts at. The bound that excludes itself
is before all keys from the offset on.
-/
theorem bounds_translate (hbase : naming.location.Clean) (hunder : Asks under)
    (hstart : start = "" ∨ Relative start) (hname : Relative (naming.withExtension name)) :
    (Text.startsWith (queryPrefix naming.location.keyPrefix under) (naming.key name) = true
        ↔ Text.startsWith under (naming.withExtension name) = true)
      ∧ (startOffset? (queryPrefix naming.location.keyPrefix under) start = none ↔ start = "")
      ∧ (∀ offset, startOffset? (queryPrefix naming.location.keyPrefix under) start = some offset →
          (naming.key name < offset ↔ naming.withExtension name < cleanJoin [under, start]))
      ∧ ∀ (offset : Option String) (key : String), (∀ first, offset = some first → first ≤ key) →
          ∀ bound, startAfter? offset = some bound → bound < key := by
  rw [hbase.queryPrefix_eq hunder, key_eq hbase hname]
  refine ⟨naming.location.startsWith_behind_iff, ?_, ?_, ?_⟩
  · unfold startOffset?
    simp
  · intro offset hoffset
    unfold startOffset? at hoffset
    split at hoffset
    · cases hoffset
    next hne =>
      have hrelative := hstart.resolve_left hne
      cases hoffset
      rw [(hbase.asks_behind hunder).cleanJoin_eq hrelative, hunder.cleanJoin_eq hrelative,
        naming.location.opened_behind, ← naming.location.behind_append,
        naming.location.behind_lt_behind_iff]
  · intro offset key hkey bound hbound
    have hafter : offset.all (· ≤ key) = true := by
      cases offset with
      | none => rfl
      | some first => exact decide_eq_true (hkey first rfl)
    have hbefore := startAfter?_lt hafter
    rw [hbound, Option.all_some] at hbefore
    exact of_decide_eq_true hbefore

def nested : Naming where
  location := ⟨"gs", "b", "/a/b"⟩
  extension := ".json"

theorem bounds_translate_nested :
    nested.location.Clean ∧ Asks "x/" ∧ Relative "y/z" ∧ Relative (nested.withExtension "x/y")
      ∧ Text.startsWith (queryPrefix nested.location.keyPrefix "x/") (nested.key "x/y") = true
      ∧ ∀ offset, startOffset? (queryPrefix nested.location.keyPrefix "x/") "y/z" = some offset →
          nested.key "x/y" < offset := by
  have hbase : nested.location.Clean := by decide
  have hunder : Asks "x/" := .inr (.inr ⟨"x", by decide, rfl⟩)
  have hstart : Relative "y/z" := by decide
  have hname : Relative (nested.withExtension "x/y") := by decide
  obtain ⟨hstarts, -, hoffset, -⟩ := bounds_translate hbase hunder (.inr hstart) hname
  exact ⟨hbase, hunder, hstart, hname, hstarts.2 (by decide),
    fun offset h => (hoffset offset h).2 (by decide)⟩

end Naming

end Depot
