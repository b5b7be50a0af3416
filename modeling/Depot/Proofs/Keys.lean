import Depot.Naming
import Depot.Proofs.Location.Join
import Depot.Proofs.Text
import Mathlib.Data.Set.Function

/-!
This module contains the theory of names and keys: a key spells the components of the base and those
of the name with its extension, and below a clean base names and keys stand for each other.
-/

namespace Depot

open Depot.Path

namespace Location

def behind (location : Location) (text : String) : String :=
  if location.keyPrefix = "" then text else location.keyPrefix ++ "/" ++ text

theorem behind_lt_behind_iff (location : Location) {text text' : String} :
    location.behind text < location.behind text' ↔ text < text' := by
  unfold behind
  split
  · rfl
  · exact Text.append_lt_append_iff

def Clean (location : Location) : Prop :=
  location.keyPrefix = "" ∨ Relative location.keyPrefix

instance (location : Location) : Decidable location.Clean :=
  inferInstanceAs (Decidable (_ ∨ _))

theorem Clean.toList_behind {location : Location} {text : String} (h : location.Clean) :
    (location.behind text).toList
      =
    Text.joinWith '/' (location.outline ++ Text.splitOn '/' text.toList) := by
  unfold behind outline
  by_cases hempty : location.keyPrefix = ""
  · rw [if_pos hempty, hempty, outline_empty, List.nil_append, Text.joinWith_splitOn]
  · have hplain : Path.outline location.keyPrefix = Text.splitOn '/' location.keyPrefix.toList :=
      (settled_of_plain (h.resolve_left hempty)).normalize_eq
    rw [if_neg hempty, hplain, Text.joinWith_append (Text.splitOn_ne_nil _ _)
      (Text.splitOn_ne_nil _ _), Text.joinWith_splitOn, Text.joinWith_splitOn,
      String.toList_append, String.toList_append, List.append_assoc]
    rfl

end Location

namespace Naming

variable {naming : Naming} {name name' text : String}

theorem toList_key (h : Relative (naming.withExtension name)) :
    (naming.key name).toList
      =
    Text.joinWith '/' (naming.location.outline
      ++ Text.splitOn '/' (naming.withExtension name).toList) := by
  unfold key
  rw [cleanJoin_relative naming.location.head?_keyPrefix h, String.toList_ofList]
  rfl

theorem splitOn_key (h : Relative (naming.withExtension name)) :
    Text.splitOn '/' (naming.key name).toList
      =
    naming.location.outline ++ Text.splitOn '/' (naming.withExtension name).toList := by
  have hsettled := naming.location.settled_outline.append_plain h
  have hne : naming.location.outline ++ Text.splitOn '/' (naming.withExtension name).toList
      ≠ [] := by
    rw [ne_eq, List.append_eq_nil_iff, not_and]
    exact fun _ => Text.splitOn_ne_nil _ _
  rw [toList_key h, Text.splitOn_joinWith hne hsettled.slashless]

theorem name_append (naming : Naming) (front : String) :
    naming.name (front ++ naming.extension)
      =
    Text.dropPrefix (naming.location.keyPrefix ++ "/") front := by
  unfold name
  dsimp only
  split
  next hempty => rw [hempty, String.append_empty]
  · rw [Text.dropSuffix_append]

theorem head?_of_relative (h : Relative (naming.withExtension name)) :
    name.toList.head? ≠ some '/' := by
  have hslash := h.head?_ne
  unfold withExtension at hslash
  rw [String.toList_append, List.head?_append] at hslash
  intro hname
  rw [hname] at hslash
  exact hslash rfl

theorem name_behind (h : Relative (naming.withExtension name)) :
    naming.name (naming.location.behind (naming.withExtension name)) = name := by
  unfold Location.behind withExtension
  by_cases hempty : naming.location.keyPrefix = ""
  · rw [if_pos hempty, name_append, hempty]
    exact Text.dropPrefix_of_head (head?_of_relative h) []
  · rw [if_neg hempty, ← String.append_assoc, name_append, Text.dropPrefix_append]

section Clean

variable (hbase : naming.location.Clean)

include hbase

theorem key_eq (h : Relative (naming.withExtension name)) :
    naming.key name = naming.location.behind (naming.withExtension name) := by
  rw [← String.toList_inj, toList_key h, hbase.toList_behind]

theorem name_key (h : Relative (naming.withExtension name)) :
    naming.name (naming.key name) = name := by
  rw [key_eq hbase h, name_behind h]

theorem exists_key_eq (h : Relative text) (hends : Text.endsWith naming.extension text = true) :
    ∃ name, Relative (naming.withExtension name)
      ∧ naming.key name = naming.location.behind text := by
  obtain ⟨name, hname⟩ := Text.exists_of_endsWith hends
  rw [hname] at h ⊢
  exact ⟨name, h, key_eq hbase h⟩

end Clean

/-- The names whose keys spell them as they are. -/
def names (naming : Naming) : Set String :=
  { name | Relative (naming.withExtension name) }

def keys (naming : Naming) : Set String :=
  { key | ∃ text, Relative text ∧ Text.endsWith naming.extension text = true
    ∧ key = naming.location.behind text }

/--
Below a clean base a key is the name with its extension behind the base, no two names share a key,
and every key behind the base that ends with the extension is that of the name that is read off it.
-/
theorem key_corresponds (naming : Naming) (hbase : naming.location.Clean) :
    (∀ name ∈ naming.names,
        naming.key name = naming.location.behind (naming.withExtension name))
      ∧ Set.InvOn naming.name naming.key naming.names naming.keys
      ∧ Set.BijOn naming.key naming.names naming.keys := by
  have hformula : ∀ name ∈ naming.names,
      naming.key name = naming.location.behind (naming.withExtension name) :=
    fun name hname => key_eq hbase hname
  have hleft : Set.LeftInvOn naming.name naming.key naming.names :=
    fun name hname => name_key hbase hname
  have hright : Set.RightInvOn naming.name naming.key naming.keys := by
    rintro key ⟨text, hrelative, hends, rfl⟩
    obtain ⟨name, hname, hkey⟩ := exists_key_eq hbase hrelative hends
    rw [← hkey, name_key hbase hname]
  have hmaps : Set.MapsTo naming.key naming.names naming.keys := by
    intro name hname
    exact ⟨naming.withExtension name, hname, Text.endsWith_append _ _, hformula name hname⟩
  have hsurj : Set.SurjOn naming.key naming.names naming.keys := by
    rintro key ⟨text, hrelative, hends, rfl⟩
    exact exists_key_eq hbase hrelative hends
  exact ⟨hformula, ⟨hleft, hright⟩, hmaps, hleft.injOn, hsurj⟩

def repeated : Naming where
  location := ⟨"gs", "b", "/a/b"⟩
  extension := "/b"

theorem key_corresponds_repeated :
    repeated.location.Clean ∧ repeated.key "a/b/b" = "a/b/a/b/b/b"
      ∧ repeated.name "a/b/a/b/b/b" = "a/b/b" := by
  have hbase : repeated.location.Clean := by decide
  have hname : "a/b/b" ∈ repeated.names := by
    change Relative (repeated.withExtension "a/b/b")
    decide
  obtain ⟨hformula, hinverse, -⟩ := key_corresponds repeated hbase
  have hkey : repeated.key "a/b/b" = "a/b/a/b/b/b" := (hformula _ hname).trans (by decide)
  refine ⟨hbase, hkey, ?_⟩
  rw [← hkey]
  exact hinverse.1 hname

end Naming

end Depot
