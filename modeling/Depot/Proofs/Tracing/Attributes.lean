import Depot.Tracing.Setup

/-!
This module contains the theory of attributes with keys: the value of a key is the last one that is
given, and keeping only the last values of all keys changes no value.
-/

namespace Depot.Tracing

variable {key other value : String} {attributes more : List (String × String)}

theorem lastValue?_append (key : String) (attributes more : List (String × String)) :
    lastValue? key (attributes ++ more)
      = (lastValue? key more).or (lastValue? key attributes) := by
  unfold lastValue?
  rw [List.reverse_append, List.lookup_append]

theorem lastValue?_singleton_self (key value : String) :
    lastValue? key [(key, value)] = some value := by
  unfold lastValue?
  rw [List.reverse_singleton, List.lookup_cons_self]

theorem lastValue?_eq_none_iff :
    lastValue? key attributes = none ↔ key ∉ attributes.map Prod.fst := by
  unfold lastValue?
  rw [List.lookup_eq_none_iff]
  simp only [List.mem_reverse, List.mem_map, bne_iff_ne, ne_eq, not_exists, not_and]
  constructor
  · intro h entry hentry hkey
    exact h entry hentry hkey.symm
  · intro h entry hentry hkey
    exact h entry hentry hkey.symm

theorem lookup_map (keys : List String) (valueOf : String → String) :
    (keys.map fun key => (key, valueOf key)).lookup key
      = if key ∈ keys then some (valueOf key) else none := by
  induction keys with
  | nil => rfl
  | cons first keys ih =>
    rw [List.map_cons, List.lookup_cons]
    by_cases hfirst : key = first
    · rw [hfirst, beq_self_eq_true, if_pos List.mem_cons_self]
    · rw [beq_false_of_ne hfirst]
      simp only [List.mem_cons, hfirst, false_or]
      exact ih

theorem lookup_lastValue? {keys : List String}
    (h : ∀ key, key ∈ keys ↔ key ∈ attributes.map Prod.fst) (key : String) :
    (keys.map fun key => (key, (lastValue? key attributes).getD "")).lookup key
      =
    lastValue? key attributes := by
  rw [lookup_map]
  cases hvalue : lastValue? key attributes with
  | none => rw [if_neg (mt (h key).1 (lastValue?_eq_none_iff.1 hvalue))]
  | some value =>
    have hgiven : key ∈ attributes.map Prod.fst := by
      refine Classical.byContradiction fun hnot => ?_
      rw [lastValue?_eq_none_iff.2 hnot] at hvalue
      cases hvalue
    rw [if_pos ((h key).2 hgiven), Option.getD_some]

theorem mem_distinctKeys (key : String) :
    key ∈ distinctKeys attributes ↔ key ∈ attributes.map Prod.fst :=
  List.mem_eraseDups

theorem lookup_lastValues (key : String) (attributes : List (String × String)) :
    (lastValues attributes).lookup key = lastValue? key attributes :=
  lookup_lastValue? mem_distinctKeys key

theorem lastValue?_lastValues (key : String) (attributes : List (String × String)) :
    lastValue? key (lastValues attributes) = lastValue? key attributes := by
  unfold lastValues
  rw [lastValue?, ← List.map_reverse]
  apply lookup_lastValue?
  intro key
  rw [List.mem_reverse]
  exact mem_distinctKeys key

section Distinct

theorem nodup_eraseDups (keys : List String) : keys.eraseDups.Nodup := by
  -- What is left behind the first key is a part of the rest.
  induction hlength : keys.length using Nat.strongRecOn generalizing keys with
  | ind length ih =>
    cases keys with
    | nil => exact List.nodup_nil
    | cons key keys =>
      rw [List.eraseDups_cons, List.nodup_cons, List.mem_eraseDups]
      refine ⟨by simp, ih _ ?_ _ rfl⟩
      rw [← hlength, List.length_cons]
      exact Nat.lt_succ_of_le (List.length_filter_le _ _)

theorem eraseDups_of_nodup {keys : List String} (h : keys.Nodup) : keys.eraseDups = keys := by
  induction keys with
  | nil => rfl
  | cons key keys ih =>
    rw [List.nodup_cons] at h
    have hrest : keys.filter (fun other => !other == key) = keys := by
      rw [List.filter_eq_self]
      intro other hother
      rw [Bool.not_eq_true', beq_eq_false_iff_ne]
      rintro rfl
      exact h.1 hother
    rw [List.eraseDups_cons, hrest, ih h.2]

theorem keys_lastValues (attributes : List (String × String)) :
    (lastValues attributes).map Prod.fst = distinctKeys attributes := by
  unfold lastValues
  rw [List.map_map]
  exact List.map_id _

theorem nodup_keys_lastValues (attributes : List (String × String)) :
    ((lastValues attributes).map Prod.fst).Nodup := by
  rw [keys_lastValues]
  exact nodup_eraseDups _

theorem mem_of_lastValue? (h : lastValue? key attributes = some value) :
    (key, value) ∈ attributes := by
  obtain ⟨front, back, hsplit, -⟩ := List.lookup_eq_some_iff.1 h
  rw [← List.mem_reverse, hsplit]
  exact List.mem_append_right _ List.mem_cons_self

theorem mem_of_mem_lastValues {entry : String × String} (h : entry ∈ lastValues attributes) :
    entry ∈ attributes := by
  obtain ⟨key, hkey, rfl⟩ := List.mem_map.1 h
  cases hvalue : lastValue? key attributes with
  | none => exact absurd ((mem_distinctKeys key).1 hkey) (lastValue?_eq_none_iff.1 hvalue)
  | some value => exact mem_of_lastValue? hvalue

theorem lastValue?_of_mem (h : (attributes.map Prod.fst).Nodup) (hmem : (key, value) ∈ attributes) :
    lastValue? key attributes = some value := by
  obtain ⟨front, back, rfl⟩ := List.append_of_mem hmem
  rw [List.map_append, List.map_cons] at h
  have hback : lastValue? key back = none :=
    lastValue?_eq_none_iff.2 (List.nodup_cons.1 (List.nodup_append.1 h).2.1).1
  rw [lastValue?_append, ← List.singleton_append, lastValue?_append, hback, Option.none_or,
    lastValue?_singleton_self, Option.some_or]

theorem lastValues_of_nodup (h : (attributes.map Prod.fst).Nodup) :
    lastValues attributes = attributes := by
  unfold lastValues distinctKeys
  rw [eraseDups_of_nodup h, List.map_map, List.map_congr_left, List.map_id]
  rintro ⟨key, value⟩ hentry
  rw [Function.comp_apply, lastValue?_of_mem h hentry]
  rfl

end Distinct

end Depot.Tracing
