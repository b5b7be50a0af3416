import Depot.Proofs.Naming
import Depot.Proofs.Store.Objects

/-!
This module contains the theory of the places of objects below any base: a place keeps of a key what
names something, so that two keys have one place exactly if they only differ in how they climb.
-/

namespace Depot

open Depot.Path

namespace Location

variable {location location' : Location} {segment : String}

/-- How many components of a base climb out of what they start in. -/
def climbs (location : Location) : Nat :=
  location.outline.count up

theorem outline_eq (location : Location) :
    location.outline = List.replicate location.climbs up ++ named location.outline := by
  obtain ⟨ups, plains, houtline, hplain⟩ := location.settled_outline
  have hnone : plains.count up = 0 := by
    rw [List.count_eq_zero]
    intro hup
    exact (hplain up hup).ne_up rfl
  unfold climbs
  rw [houtline, List.count_append, List.count_replicate_self, hnone, Nat.add_zero, named_append,
    named_ups, List.nil_append, named_plain hplain]

theorem climbs_join (location : Location) (h : Relative segment) :
    (location.join segment).climbs = if location.isRooted then 0 else location.climbs := by
  have hsegment : (Text.splitOn '/' segment.toList).count up = 0 := by
    rw [List.count_eq_zero]
    intro hup
    exact (h up hup).ne_up rfl
  unfold climbs
  rw [outline_join location h, List.count_append, hsegment, Nat.add_zero]
  unfold kept
  split
  · rw [List.count_eq_zero]
    intro hup
    exact (location.settled_outline.plain_named up hup).ne_up rfl
  · rfl

end Location

namespace Store.Files

open Depot.Files

variable {store store' : Store} {name name' : String}

theorem foldl_enter_settled {cs : List Component} (h : Settled cs) :
    (cs.map String.ofList).foldl Tree.enter [] = ((named cs).map String.ofList).reverse := by
  obtain ⟨ups, plains, rfl, hplain⟩ := h
  have hdots : ∀ part ∈ plains.map String.ofList, Tree.isDots part = false := by
    intro part hpart
    obtain ⟨c, hc, rfl⟩ := List.mem_map.1 hpart
    exact Pathname.isDots_of_plain (hplain c hc)
  have hups : (List.replicate ups up).map String.ofList = List.replicate ups ".." :=
    List.map_replicate
  rw [List.map_append, List.foldl_append, hups, Tree.foldl_enter_ups,
    Tree.foldl_enter_plain hdots, List.append_nil, named_append, named_ups, List.nil_append,
    named_plain hplain]

theorem names_objectPathname_of_key {cs : List Component} (h : Settled cs) {rooted : Bool}
    (hkey : store.key name = String.ofList (Path.render rooted cs)) :
    (objectPathname store name).names = cs.map String.ofList := by
  rw [objectPathname, names_keyPath, hkey, String.toList_ofList, Pathname.keptNames_render h]

theorem exists_names_objectPathname (store : Store) (name : String) :
    ∃ cs, Settled cs ∧ (objectPathname store name).names = cs.map String.ofList
      ∧ objectPlace store name = ((named cs).map String.ofList).reverse := by
  obtain ⟨cs, hsettled, hnames⟩ : ∃ cs, Settled cs
      ∧ (objectPathname store name).names = cs.map String.ofList := by
    rcases cleanJoin_cases [store.location.keyPrefix, store.naming.withExtension name] with
      hempty | ⟨rooted, cs, hsettled, htext⟩
    · have hkey : store.key name = "" := hempty
      refine ⟨[], settled_of_plain (List.forall_mem_nil _), ?_⟩
      rw [objectPathname, names_keyPath, hkey]
      rfl
    · exact ⟨cs, hsettled, names_objectPathname_of_key hsettled htext⟩
  refine ⟨cs, hsettled, hnames, ?_⟩
  unfold objectPlace
  rw [hnames, foldl_enter_settled hsettled]

theorem plain_objectPlace (store : Store) (name : String) :
    ∀ part ∈ objectPlace store name, Plain part.toList := by
  obtain ⟨cs, hsettled, -, hplace⟩ := exists_names_objectPathname store name
  rw [hplace]
  intro part hpart
  obtain ⟨c, hc, rfl⟩ := List.mem_map.1 (List.mem_reverse.1 hpart)
  rw [String.toList_ofList]
  exact hsettled.plain_named c hc

def pieces (store : Store) (name : String) : List Component :=
  store.location.outline ++ Text.splitOn '/' (store.naming.withExtension name).toList

section Relative

variable (h : Relative (store.naming.withExtension name))

include h

theorem settled_pieces : Settled (pieces store name) :=
  store.location.settled_outline.append_plain h

theorem splitOn_storeKey : Text.splitOn '/' (store.key name).toList = pieces store name :=
  Naming.splitOn_key h

theorem names_objectPathname :
    (objectPathname store name).names = (pieces store name).map String.ofList := by
  rw [objectPathname, names_keyPath, splitOn_storeKey h,
    Pathname.keptNames_settled (settled_pieces h)]

theorem objectPlace_named :
    objectPlace store name = ((named (pieces store name)).map String.ofList).reverse := by
  unfold objectPlace
  rw [names_objectPathname h, foldl_enter_settled (settled_pieces h)]

end Relative

theorem key_eq_of_objectPlace (h : Relative (store.naming.withExtension name))
    (h' : Relative (store'.naming.withExtension name'))
    (hclimbs : store'.location.climbs = store.location.climbs)
    (hplace : objectPlace store' name' = objectPlace store name) :
    store'.key name' = store.key name := by
  have hsame : named (pieces store' name') = named (pieces store name) := by
    rw [objectPlace_named h, objectPlace_named h', List.reverse_inj] at hplace
    exact (List.map_inj_right fun _ _ => String.ofList_inj.1).1 hplace
  have hpieces : pieces store' name' = pieces store name := by
    unfold pieces at hsame ⊢
    rw [named_append, named_append, named_plain h, named_plain h'] at hsame
    rw [store'.location.outline_eq, store.location.outline_eq, hclimbs, List.append_assoc,
      List.append_assoc, hsame]
  rw [← String.toList_inj, ← Text.joinWith_splitOn '/' (store.key name).toList,
    ← Text.joinWith_splitOn '/' (store'.key name').toList, splitOn_storeKey h,
    splitOn_storeKey h', hpieces]

end Store.Files

end Depot
