/-!
This module contains finite tables: keys with a value for each, no key twice.
-/

namespace Depot

/-- A finite table. The order of its entries means nothing. -/
structure Table (α : Type) (β : Type) where
  entries : List (α × β)
  nodup_keys : (entries.map Prod.fst).Nodup

namespace Table

variable {α β : Type} [DecidableEq α]

def empty : Table α β :=
  ⟨[], List.nodup_nil⟩

instance : Inhabited (Table α β) :=
  ⟨empty⟩

def keys (t : Table α β) : List α :=
  t.entries.map Prod.fst

def get? (t : Table α β) (k : α) : Option β :=
  (t.entries.find? (·.1 = k)).map Prod.snd

def erase (t : Table α β) (k : α) : Table α β where
  entries := t.entries.filter (·.1 ≠ k)
  nodup_keys := List.Nodup.sublist (List.Sublist.map _ List.filter_sublist) t.nodup_keys

/-- The table with a value for a key, instead of any it had before. -/
def insert (t : Table α β) (k : α) (v : β) : Table α β where
  entries := (k, v) :: (t.erase k).entries
  nodup_keys := by
    rw [List.map_cons, List.nodup_cons]
    refine ⟨?_, (t.erase k).nodup_keys⟩
    simp [erase]

@[simp]
theorem get?_erase_self (t : Table α β) (k : α) : (t.erase k).get? k = none := by
  simp only [get?, erase, Option.map_eq_none_iff, List.find?_eq_none]
  simp

theorem get?_erase_of_ne (t : Table α β) {k k' : α} (h : k' ≠ k) :
    (t.erase k).get? k' = t.get? k' := by
  simp only [get?, erase]
  congr 1
  rw [List.find?_filter]
  congr 1
  funext e
  by_cases he : e.1 = k' <;> simp [he, h]

@[simp]
theorem get?_insert_self (t : Table α β) (k : α) (v : β) : (t.insert k v).get? k = some v := by
  simp [get?, insert]

theorem get?_insert_of_ne (t : Table α β) {k k' : α} (v : β) (h : k' ≠ k) :
    (t.insert k v).get? k' = t.get? k' := by
  rw [← get?_erase_of_ne t h]
  simp [get?, insert, h.symm]

theorem mem_keys_iff (t : Table α β) (k : α) : k ∈ t.keys ↔ (t.get? k).isSome := by
  simp [keys, get?]

theorem get?_eq_some_iff (t : Table α β) (k : α) (v : β) :
    t.get? k = some v ↔ (k, v) ∈ t.entries := by
  constructor
  · intro h
    simp only [get?, Option.map_eq_some_iff] at h
    obtain ⟨⟨k', v'⟩, hfind, rfl⟩ := h
    have hk := List.find?_some hfind
    simp only [decide_eq_true_eq] at hk
    subst hk
    exact List.mem_of_find?_eq_some hfind
  · obtain ⟨entries, hnodup⟩ := t
    intro h
    simp only [get?] at h ⊢
    induction entries with
    | nil => simp at h
    | cons e es ih =>
      rw [List.map_cons, List.nodup_cons] at hnodup
      rcases List.mem_cons.1 h with rfl | hmem
      · simp
      · have hne : e.1 ≠ k := fun he => hnodup.1 (he ▸ List.mem_map_of_mem hmem)
        simp [hne, ih hnodup.2 hmem]

end Table

end Depot
