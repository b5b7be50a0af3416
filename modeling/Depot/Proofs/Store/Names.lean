import Depot.Proofs.Keys
import Depot.Proofs.Store.Objects

/-!
This module contains the theory of clean names: the keys that a store in a directory gives them, the
places of their objects, and that neither loses anything of a name.
-/

namespace Depot

namespace Files

structure Proper (part : String) : Prop where
  plain : Path.Plain part.toList
  zeroless : '\x00' ∉ part.toList
  short : Tree.isTooLong part = false

instance (part : String) : Decidable (Proper part) :=
  decidable_of_iff
    (Path.Plain part.toList ∧ '\x00' ∉ part.toList ∧ Tree.isTooLong part = false)
    ⟨fun ⟨hplain, hzero, hshort⟩ => ⟨hplain, hzero, hshort⟩,
      fun h => ⟨h.plain, h.zeroless, h.short⟩⟩

theorem isDots_eq_of_plain {part : String} (h : Path.Plain part.toList) :
    Tree.isDots part = false := by
  have hdots := Pathname.isDots_of_plain h
  rw [String.ofList_toList] at hdots
  exact hdots

theorem Proper.isDots_eq {part : String} (h : Proper part) : Tree.isDots part = false :=
  isDots_eq_of_plain h.plain

variable {names : List String}

theorem plain_ofList_map {comps : List Path.Component} (h : ∀ c ∈ comps, Path.Plain c) :
    ∀ part ∈ comps.map String.ofList, Path.Plain part.toList := by
  intro part hpart
  obtain ⟨c, hc, rfl⟩ := List.mem_map.1 hpart
  rw [String.toList_ofList]
  exact h c hc

theorem plain_map (h : ∀ part ∈ names, Path.Plain part.toList) :
    ∀ c ∈ names.map String.toList, Path.Plain c := by
  intro c hc
  obtain ⟨part, hpart, rfl⟩ := List.mem_map.1 hc
  exact h part hpart

theorem plain_of_proper (h : ∀ part ∈ names, Proper part) :
    ∀ c ∈ names.map String.toList, Path.Plain c :=
  plain_map fun part hpart => (h part hpart).plain

theorem ofList_toList_map (names : List String) :
    (names.map String.toList).map String.ofList = names := by
  rw [List.map_map]
  apply List.map_id''
  intro part
  exact String.ofList_toList

theorem toList_ofList_map (pieces : List (List Char)) :
    (pieces.map String.ofList).map String.toList = pieces := by
  rw [List.map_map]
  apply List.map_id''
  intro piece
  exact String.toList_ofList

theorem holdsZero_eq_false {p : Pathname} (h : ∀ part ∈ p.names, '\x00' ∉ part.toList) :
    p.holdsZero = false := by
  unfold Pathname.holdsZero
  rw [List.any_eq_false]
  intro part hpart
  rw [Bool.not_eq_true, List.any_eq_false]
  intro c hc
  rw [decide_eq_true_eq]
  rintro rfl
  exact h part hpart hc

theorem Pathname.startOf_slash {cs : List Char} (h : cs.head? ≠ some '/') :
    startOf ('/' :: cs) = .root := by
  cases cs with
  | nil => rfl
  | cons c cs =>
    unfold startOf
    split
    · rfl
    next hslash =>
      cases hslash
      exact absurd rfl h
    · rfl
    next hnone => exact absurd rfl (hnone _)

theorem names_parse_of_proper (h : ∀ part ∈ names, Proper part) :
    (Pathname.parse ("/" ++ "/".intercalate names)).names = names := by
  have htext : ("/" ++ "/".intercalate names).toList
      = Path.render true (names.map String.toList) := by
    rw [String.toList_append, Text.toList_intercalate]
    rfl
  rw [Pathname.names_parse_eq, htext,
    Pathname.keptNames_render (Path.settled_of_plain (plain_of_proper h)), ofList_toList_map]

end Files

theorem Store.map_name_key {store : Store} {names : List String} (hbase : store.location.Clean)
    (h : ∀ name ∈ names, Path.Relative (store.naming.withExtension name)) :
    (names.map store.key).map store.naming.name = names := by
  have hid : ∀ name ∈ names, (store.naming.name ∘ store.key) name = id name := by
    intro name hname
    rw [Function.comp_apply, id_eq]
    exact Naming.name_key hbase (h name hname)
  rw [List.map_map, List.map_congr_left hid, List.map_id]

namespace Store.Files

open Depot.Files

variable {store : Store} {outer : List String} {name name' : String} {tree : Tree}

structure Rooted (store : Store) (outer : List String) : Prop where
  path_eq : store.location.path = "/" ++ "/".intercalate outer
  proper : ∀ part ∈ outer, Proper part

def parts (store : Store) (name : String) : List String :=
  (Text.splitOn '/' (store.naming.withExtension name).toList).map String.ofList

/-- The most bytes the last component of a clean name has. -/
def maxLast : Nat := 208

/-- Whether a name with its extension is a relative path of file names, the last of which is none of
a staging file and leaves room for what such a name adds to it. -/
structure Clean (store : Store) (name : String) : Prop where
  proper : ∀ part ∈ parts store name, Proper part
  short : ((parts store name).getLastD "").utf8ByteSize ≤ maxLast
  unstaged : isStaging ((parts store name).getLastD "") = false

instance (store : Store) (name : String) : Decidable (Clean store name) :=
  decidable_of_iff
    ((∀ part ∈ parts store name, Proper part)
      ∧ ((parts store name).getLastD "").utf8ByteSize ≤ maxLast
      ∧ isStaging ((parts store name).getLastD "") = false)
    ⟨fun ⟨hproper, hshort, hunstaged⟩ => ⟨hproper, hshort, hunstaged⟩,
      fun h => ⟨h.proper, h.short, h.unstaged⟩⟩

theorem parts_ne_nil (store : Store) (name : String) : parts store name ≠ [] := by
  unfold parts
  rw [ne_eq, List.map_eq_nil_iff]
  exact Text.splitOn_ne_nil _ _

theorem intercalate_parts (store : Store) (name : String) :
    "/".intercalate (parts store name) = store.naming.withExtension name := by
  rw [← String.toList_inj, Text.toList_intercalate]
  unfold parts
  rw [toList_ofList_map, Text.joinWith_splitOn]

theorem Clean.relative (h : Clean store name) : Path.Relative (store.naming.withExtension name) := by
  have hplain := plain_of_proper h.proper
  unfold parts at hplain
  rw [toList_ofList_map] at hplain
  exact hplain

theorem withExtension_injective (h : store.naming.withExtension name = store.naming.withExtension name') :
    name = name' := by
  unfold Naming.withExtension at h
  rw [String.append_left_inj] at h
  exact h

theorem parts_injective (h : parts store name = parts store name') : name = name' := by
  have hname : store.naming.withExtension name = store.naming.withExtension name' := by
    rw [← intercalate_parts, ← intercalate_parts, h]
  exact withExtension_injective hname

theorem start_keyPath_of_head {key : String} (h : key.toList.head? ≠ some '/') :
    (keyPath key).start = .root := by
  have hlist : ("/" ++ key).toList = '/' :: key.toList := by simp
  unfold keyPath Pathname.parse
  dsimp only
  rw [hlist, Pathname.startOf_slash h]

namespace Rooted

theorem keyPrefix_eq (h : Rooted store outer) : store.location.keyPrefix = "/".intercalate outer := by
  have hplain := plain_of_proper h.proper
  have hne : ∀ c ∈ outer.map String.toList, c ≠ [] := fun c hc => (hplain c hc).nonempty
  have hslash : ∀ c ∈ outer.map String.toList, '/' ∉ c := fun c hc => (hplain c hc).slashless
  have htext : ("/" ++ "/".intercalate outer).toList
      = '/' :: Text.joinWith '/' (outer.map String.toList) := by
    rw [String.toList_append, Text.toList_intercalate]
    rfl
  unfold Location.keyPrefix Text.stripBoth
  rw [h.path_eq, htext, Text.trim_sep (Text.head?_joinWith hne hslash)
    (Text.getLast?_joinWith hne hslash), ← Text.toList_intercalate, String.ofList_toList]

theorem proper_append (h : Rooted store outer) (hclean : Clean store name) :
    ∀ part ∈ outer ++ parts store name, Proper part := by
  intro part hpart
  rcases List.mem_append.1 hpart with hpart | hpart
  · exact h.proper part hpart
  · exact hclean.proper part hpart

theorem key_eq (h : Rooted store outer) (hclean : Clean store name) :
    store.key name = "/".intercalate (outer ++ parts store name) := by
  have houter := Text.toList_intercalate outer
  have hname := Text.toList_intercalate (parts store name)
  have hparts : (parts store name).map String.toList ≠ [] := by
    rw [ne_eq, List.map_eq_nil_iff]
    exact parts_ne_nil store name
  have hjoin := Path.cleanJoin_joinWith (plain_of_proper h.proper) hparts
    (plain_of_proper hclean.proper)
  rw [← houter, ← hname, String.ofList_toList, String.ofList_toList, ← List.map_append,
    ← Text.toList_intercalate, String.ofList_toList] at hjoin
  unfold key Naming.key
  rw [show store.naming.location.keyPrefix = _ from h.keyPrefix_eq, ← intercalate_parts]
  exact hjoin

theorem names_objectPathname (h : Rooted store outer) (hclean : Clean store name) :
    (objectPathname store name).names = outer ++ parts store name := by
  rw [objectPathname]
  unfold keyPath
  rw [h.key_eq hclean, names_parse_of_proper (h.proper_append hclean)]

theorem render_objectPathname (h : Rooted store outer) (hclean : Clean store name) :
    (objectPathname store name).render = "/" ++ store.key name := by
  have hplain := plain_of_proper (h.proper_append hclean)
  have hhead := Text.head?_joinWith (fun c hc => (hplain c hc).nonempty)
    (fun c hc => (hplain c hc).slashless)
  rw [← Text.toList_intercalate, ← h.key_eq hclean] at hhead
  have hstart : (objectPathname store name).start = .root := by
    rw [objectPathname]
    exact start_keyPath_of_head hhead
  have hne : "/" ++ store.key name ≠ "" := by
    intro hempty
    have hnil := congrArg String.toList hempty
    simp at hnil
  unfold Pathname.render
  rw [hstart, h.names_objectPathname hclean, ← h.key_eq hclean]
  exact if_neg hne

theorem objectPlace_eq (h : Rooted store outer) (hclean : Clean store name) :
    objectPlace store name = (outer ++ parts store name).reverse := by
  unfold objectPlace
  rw [h.names_objectPathname hclean, Tree.foldl_enter_plain, List.append_nil]
  intro part hpart
  exact (h.proper_append hclean part hpart).isDots_eq

theorem objectPlace_injective (h : Rooted store outer) (hclean : Clean store name)
    (hclean' : Clean store name') (hplace : objectPlace store name = objectPlace store name') :
    name = name' := by
  rw [h.objectPlace_eq hclean, h.objectPlace_eq hclean', List.reverse_inj] at hplace
  exact parts_injective (List.append_cancel_left hplace)

theorem base_eq (h : Rooted store outer) :
    base store = .parse ("/" ++ "/".intercalate outer) := by
  have hne : store.location.path ≠ "" := by
    rw [h.path_eq]
    intro hempty
    have hnil := congrArg String.toList hempty
    rw [String.toList_append] at hnil
    cases hnil
  unfold base
  rw [if_neg hne, h.path_eq]

theorem names_base (h : Rooted store outer) : (base store).names = outer := by
  rw [h.base_eq, names_parse_of_proper h.proper]

theorem startOf_base (h : Rooted store outer) (tree : Tree) : tree.startOf (base store) = [] := by
  apply startOf_of_ne_current
  rw [h.base_eq]
  exact start_keyPath _

theorem within (h : Rooted store outer) (hclean : Clean store name) (tree : Tree) :
    Within store tree name := by
  refine ⟨?_, ?_, ?_⟩
  · apply holdsZero_eq_false
    rw [h.names_objectPathname hclean]
    exact fun part hpart => (h.proper_append hclean part hpart).zeroless
  · apply holdsZero_eq_false
    rw [h.names_base]
    exact fun part hpart => (h.proper part hpart).zeroless
  · have hplace := h.objectPlace_eq hclean
    unfold objectPlace at hplace
    unfold basePlace isWithin
    rw [startOf_objectPathname, hplace, h.startOf_base, h.names_base, Tree.foldl_enter_plain,
      List.append_nil, List.isSuffixOf_iff_suffix, List.reverse_append]
    · exact List.suffix_append _ _
    · intro part hpart
      exact (h.proper part hpart).isDots_eq

theorem clean (h : Rooted store outer) : store.location.Clean := by
  unfold Location.Clean
  rw [h.keyPrefix_eq]
  by_cases hnil : outer = []
  · rw [hnil]
    exact .inl String.intercalate_nil
  · right
    have hcomps : outer.map String.toList ≠ [] := by
      rw [ne_eq, List.map_eq_nil_iff]
      exact hnil
    have hplain := plain_of_proper h.proper
    unfold Path.Relative
    rw [Text.toList_intercalate, Text.splitOn_joinWith hcomps fun c hc => (hplain c hc).slashless]
    exact hplain

theorem name_key (h : Rooted store outer) (hclean : Clean store name) :
    store.naming.name (store.key name) = name :=
  Naming.name_key h.clean hclean.relative

theorem key_injective (h : Rooted store outer) (hclean : Clean store name)
    (hclean' : Clean store name') (hkey : store.key name = store.key name') : name = name' := by
  rw [← h.name_key hclean, ← h.name_key hclean', hkey]

end Rooted

end Store.Files

end Depot
