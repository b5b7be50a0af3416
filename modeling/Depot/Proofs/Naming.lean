import Depot.Path.Query
import Depot.Proofs.Keys
import Depot.Proofs.Store.Listing

/-!
This module contains the theory of the keys of objects against the text that the keys of a listing
start with. Keys spell the base in its normal form, a listing of everything spells it as it is
given.
-/

namespace Depot

open Depot.Path

namespace Location

variable {location : Location}

/-- Whether a base is spelled as keys spell it. -/
def Tidy (location : Location) : Prop :=
  location.keyPrefix = ""
    ∨ location.keyPrefix ≠ "." ∧ cleanJoin [location.keyPrefix] = location.keyPrefix

instance (location : Location) : Decidable location.Tidy :=
  inferInstanceAs (Decidable (_ ∨ _))

theorem toList_dot : ".".toList = here := rfl

theorem cleanJoin_keyPrefix (location : Location) (h : location.keyPrefix ≠ "") :
    cleanJoin [location.keyPrefix] = String.ofList (Path.render false location.outline) := by
  have hclean := cleanJoin_empty h
  have hsame : cleanJoin ["", location.keyPrefix] = cleanJoin [location.keyPrefix] := by
    unfold cleanJoin
    rw [List.filter_cons_of_neg (by simp)]
  rw [← hsame, hclean]
  unfold cleanChars outline Path.outline
  rw [isRooted_eq_false location.head?_keyPrefix]

theorem tidy_iff_settled :
    location.Tidy
      ↔ location.keyPrefix = "" ∨ Settled (Text.splitOn '/' location.keyPrefix.toList) := by
  unfold Tidy
  by_cases hempty : location.keyPrefix = ""
  · simp [hempty]
  · simp only [hempty, false_or]
    rw [location.cleanJoin_keyPrefix hempty, ← String.toList_inj, String.toList_ofList]
    constructor
    · rintro ⟨hdot, hclean⟩
      have hne : location.outline ≠ [] := by
        intro hnil
        apply hdot
        rw [← String.toList_inj, ← hclean, hnil, toList_dot]
        rfl
      rw [render_false hne] at hclean
      rw [← hclean, Text.splitOn_joinWith hne location.settled_outline.slashless]
      exact location.settled_outline
    · intro hsettled
      have houtline : location.outline = Text.splitOn '/' location.keyPrefix.toList :=
        hsettled.normalize_eq
      refine ⟨?_, ?_⟩
      · intro hdot
        rw [hdot] at hsettled
        exact (hsettled.ne here List.mem_cons_self).2 rfl
      · rw [houtline, render_false (Text.splitOn_ne_nil _ _), Text.joinWith_splitOn]

theorem tidy_of_spelled {cs : List Component} (hsettled : Settled cs)
    (hkey : location.keyPrefix = String.ofList (Text.joinWith '/' cs)) : location.Tidy := by
  rw [tidy_iff_settled, hkey, String.toList_ofList]
  by_cases hne : cs = []
  · rw [hne]
    exact .inl rfl
  · right
    rw [Text.splitOn_joinWith hne hsettled.slashless]
    exact hsettled

end Location

namespace Naming

variable {naming : Naming} {name : String}

theorem startsWith_query_iff (h : Relative (naming.withExtension name)) :
    Text.startsWith (queryPrefix naming.location.keyPrefix "") (naming.key name) = true
      ↔ naming.location.Tidy := by
  have hsettled := naming.location.settled_outline.append_plain h
  have hsplit := splitOn_key h
  rw [Location.tidy_iff_settled]
  unfold Text.startsWith queryPrefix
  rw [if_pos rfl, List.isPrefixOf_iff_prefix]
  by_cases hempty : naming.location.keyPrefix = ""
  · simp [hempty]
  · simp only [hempty, if_false, false_or]
    rw [String.toList_append]
    constructor
    · -- The components of the base are the first of those of the key.
      rintro ⟨rest, hrest⟩
      rw [List.append_assoc] at hrest
      change naming.location.keyPrefix.toList ++ '/' :: rest = _ at hrest
      rw [← hrest, Text.splitOn_append_sep] at hsplit
      rw [← hsplit] at hsettled
      exact hsettled.of_append
    · intro hspelled
      have houtline : naming.location.outline
          = Text.splitOn '/' naming.location.keyPrefix.toList := hspelled.normalize_eq
      rw [toList_key h, houtline,
        Text.joinWith_append (Text.splitOn_ne_nil _ _) (Text.splitOn_ne_nil _ _),
        Text.joinWith_splitOn]
      refine ⟨Text.joinWith '/' (Text.splitOn '/' (naming.withExtension name).toList), ?_⟩
      rw [List.append_assoc]
      rfl

end Naming

namespace Store

variable {store : Store} {name : String}

/--
What is written below the base of a store is in the listing of the whole store exactly if the base
is spelled as keys spell it.
-/
theorem key_listed_iff (store : Store) (h : Relative (store.naming.withExtension name)) :
    (Text.startsWith (store.query "") (store.key name) = true ↔ store.location.Tidy)
      ∧ ∀ bucket : Cloud.Bucket, bucket.has (store.key name) = true →
          (store.key name ∈ bucket.keysFrom (store.query "") none ↔ store.location.Tidy) := by
  have hkey := Naming.startsWith_query_iff h
  have hstarts : Text.startsWith (store.query "") (store.key name) = true
      ↔ store.location.Tidy := hkey
  refine ⟨hstarts, fun bucket hhas => ?_⟩
  unfold Cloud.Bucket.keysFrom
  rw [List.mem_filter, Cloud.Bucket.mem_sortedKeys, Option.all_none, Bool.and_true, hstarts]
  exact and_iff_right hhas

def doubled : Store where
  backend := .gcs
  location := ⟨"gs", "b", "/a//c"⟩

theorem key_listed_iff_doubled :
    Relative (doubled.naming.withExtension "n")
      ∧ (Text.startsWith (doubled.query "") (doubled.key "n") = true ↔ doubled.location.Tidy) := by
  have hname : Relative (doubled.naming.withExtension "n") := by decide
  have hlisted := key_listed_iff doubled hname
  exact ⟨hname, hlisted.1⟩

/-- Nothing that is written below the doubled slash of this URL is ever listed there. -/
theorem doubled_unlisted :
    Location.parse .ok "gs://b/a//c" = .ok doubled.location
      ∧ Relative (doubled.naming.withExtension "n")
      ∧ Text.startsWith (doubled.query "") (doubled.key "n") = false := by
  refine ⟨?_, ?_, ?_⟩
  · rfl
  · decide
  · decide

end Store

end Depot
