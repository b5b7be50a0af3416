import Depot.Proofs.Files.Growth
import Depot.Proofs.Store.Names
import Depot.Proofs.Store.Requests

/-!
This module contains the theory of names with room for a staging file next to their objects: nothing
but its source keeps a write of one from being carried out, and a directory in its place makes it
look like one that finds an object.
-/

namespace Depot.Store.Files

open Depot.Files Depot.Action Depot.Files.Tree

variable {store : Store} {outer : List String} {token : Nat} {name : String} {source : Source}
  {overwrite : Bool} {world : World} {tree tree' : Tree} {place : Place} {failure : Failure}

def Unused (token : Nat) (part : String) : Prop :=
  ∀ last, part ≠ stagingName last token

theorem unused_of_not_staging {part : String} (h : isStaging part = false) (token : Nat) :
    Unused token part := by
  rintro last rfl
  rw [isStaging_stagingName] at h
  cases h

/-- Whether a number is left for the staging files in a tree. -/
def Spare (token : Nat) (tree : Tree) : Prop :=
  ∀ part directory, tree.get? (part :: directory) ≠ none → Unused token part

theorem Spare.erase (h : Spare token tree) (hne : place ≠ []) : Spare token (tree.erase place) := by
  intro part directory hsome
  have hother : part :: directory ≠ place := by
    intro hsame
    rw [hsame] at hsome
    exact hsome (get?_erase_self _ hne)
  rw [get?_erase_of_ne _ hother] at hsome
  exact h part directory hsome

/--
Whether a name has room for a staging file next to its object: it is clean, the pathname of the file
is not too long, and a number is left for it.
-/
structure Storable (store : Store) (outer : List String) (token : Nat) (name : String) : Prop where
  clean : Clean store name
  short : ("/" ++ store.key name).utf8ByteSize + stagingMargin < maxPathname
  digits : token < stagingNumbers
  unused : ∀ part ∈ outer ++ parts store name, Unused token part

namespace Storable

theorem fits (h : Storable store outer token name) (hrooted : Rooted store outer) :
    (objectPathname store name).Fits := by
  have hshort := h.short
  refine ⟨?_, ?_⟩
  · apply decide_eq_false
    rw [hrooted.render_objectPathname h.clean]
    omega
  · rw [hrooted.names_objectPathname h.clean]
    intro part hpart
    exact (hrooted.proper_append h.clean part hpart).short

theorem onWayTo (h : Storable store outer token name) (hrooted : Rooted store outer)
    (hway : OnWayTo store name place) :
    ∃ front, front <+: (outer ++ parts store name).dropLast ∧ place = front.reverse := by
  obtain ⟨front, hfront, hplace⟩ := hway
  rw [hrooted.names_objectPathname h.clean] at hfront
  refine ⟨front, hfront, ?_⟩
  rw [hplace, foldl_enter_plain, List.append_nil]
  intro part hpart
  have hmem := (hfront.trans (List.dropLast_prefix _)).subset hpart
  exact (hrooted.proper_append h.clean part hmem).isDots_eq

theorem spare (h : Storable store outer token name) (hrooted : Rooted store outer)
    (hspare : Spare token tree) (hextends : tree.Extends tree' (OnWayTo store name)) :
    Spare token tree' := by
  intro part directory hsome
  by_cases hget : tree.get? (part :: directory) = none
  · obtain ⟨front, hfront, hplace⟩ := h.onWayTo hrooted (hextends.added _ hget hsome).2
    apply h.unused
    apply (hfront.trans (List.dropLast_prefix _)).subset
    rw [← List.mem_reverse, ← hplace]
    exact List.mem_cons_self
  · exact hspare part directory hget

theorem spare_of_holds (h : Storable store outer token name) (hrooted : Rooted store outer)
    (hspare : Spare token tree) {raw : ByteArray}
    (hholds : Holds tree (objectPlace store name) raw tree') : Spare token tree' := by
  intro part directory hsome
  by_cases hplace : part :: directory = objectPlace store name
  · apply h.unused
    rw [hrooted.objectPlace_eq h.clean] at hplace
    rw [← List.mem_reverse, ← hplace]
    exact List.mem_cons_self
  · rw [hholds.off_eq _ hplace] at hsome
    exact hspare part directory hsome

theorem directories_ok (h : Storable store outer token name) (hrooted : Rooted store outer)
    (hsound : tree.Sound) (hopen : tree.Open [] (outer ++ parts store name).dropLast) :
    (directories store name tree).1 = .ok () := by
  have hnames := hrooted.names_objectPathname h.clean
  have hstart := start_objectPathname store name
  apply makeDirectories_ok hsound
  · exact fun names => startOf_of_ne_current tree hstart
  · intro part hpart
    rw [List.mem_reverse, hnames] at hpart
    have hmem := (List.dropLast_prefix _).subset hpart
    exact (hrooted.proper_append h.clean part hmem).isDots_eq
  · rw [List.reverse_reverse]
    exact Fits.of_isPrefix (h.fits hrooted) (List.dropLast_prefix _)
  · rw [List.reverse_reverse, hnames]
    exact hopen

theorem name_objectPathname (h : Storable store outer token name) (hrooted : Rooted store outer) :
    (objectPathname store name).name = (parts store name).getLastD "" := by
  unfold Pathname.name
  rw [hrooted.names_objectPathname h.clean, List.getLastD_eq_getLast?, List.getLastD_eq_getLast?,
    List.getLast?_append, List.getLast?_eq_some_getLast (parts_ne_nil store name), Option.some_or]

theorem staging_fits (h : Storable store outer token name) (hrooted : Rooted store outer)
    (hsound : tree.Sound) (hspare : Spare token tree) :
    refuses (objectPathname store name).start (objectPathname store name).names.dropLast
      (stagingOf store name tree) = false := by
  have hgrown := h.spare hrooted hspare (directories_extends hsound store name)
  have hfree : ∀ directory, (directories store name tree).2.get?
      (stagingName (objectPathname store name).name token :: directory) = none := by
    intro directory
    apply Classical.byContradiction
    intro htaken
    exact hgrown _ directory htaken _ rfl
  -- The number is at most the one that is left, so it has no more digits.
  obtain ⟨number, hle, hstaging⟩ := freshStaging_le hfree
  have hsize := utf8ByteSize_stagingName_of_lt (Nat.lt_of_le_of_lt hle h.digits)
    (objectPathname store name).name
  have hrest : (objectPathname store name).names.dropLast ++ [(objectPathname store name).name]
      = (objectPathname store name).names := by
    apply Pathname.dropLast_append_name
    rw [hrooted.names_objectPathname h.clean, ne_eq, List.append_eq_nil_iff]
    exact fun hnil => parts_ne_nil store name hnil.2
  have hwidth := Pathname.width_concat (objectPathname store name).names.dropLast
    (objectPathname store name).name (stagingOf store name tree)
  have hpath := h.short
  have hshort := h.clean.short
  rw [← hrooted.render_objectPathname h.clean, Pathname.utf8ByteSize_render] at hpath
  rw [← h.name_objectPathname hrooted] at hshort
  rw [hrest] at hwidth
  unfold stagingOf at hwidth ⊢
  rw [hstaging] at hwidth ⊢
  unfold refuses pathTooLong isTooLong
  rw [Bool.or_eq_false_iff, Bool.and_eq_false_iff, decide_eq_false_iff_not, decide_eq_false_iff_not,
    Pathname.utf8ByteSize_render]
  dsimp only
  constructor
  · omega
  · right
    unfold stagingMargin stagingDigits at hsize
    unfold maxLast at hshort
    unfold maxName
    omega

theorem obstacle_cases (h : Storable store outer token name) (hrooted : Rooted store outer)
    (hsound : tree.Sound) (hspare : Spare token tree)
    (hopen : tree.Open [] (outer ++ parts store name).dropLast)
    (hwhy : Obstacle store name source overwrite tree tree' failure) :
    source.content = .error failure
      ∨ overwrite = true ∧ tree'.stat (objectPathname store name) = .ok .directory := by
  cases hwhy with
  | outside hnot => exact absurd (hrooted.within h.clean _) hnot
  | noDirectory hnot => exact absurd (h.directories_ok hrooted hsound hopen) hnot
  | tooLong hlong =>
    rw [h.staging_fits hrooted hsound hspare] at hlong
    cases hlong
  | bySource hcontent => exact .inl hcontent
  | directory hreplaces hstat => exact .inr ⟨hreplaces, hstat⟩

theorem objectPlace_ne_nil (h : Storable store outer token name) (hrooted : Rooted store outer) :
    objectPlace store name ≠ [] := by
  rw [hrooted.objectPlace_eq h.clean, ne_eq, List.reverse_eq_nil_iff, List.append_eq_nil_iff]
  exact fun hnil => parts_ne_nil store name hnil.2

theorem not_onWayTo_self (h : Storable store outer token name) (hrooted : Rooted store outer) :
    ¬OnWayTo store name (objectPlace store name) := by
  intro hway
  obtain ⟨front, hfront, hplace⟩ := h.onWayTo hrooted hway
  rw [hrooted.objectPlace_eq h.clean, List.reverse_inj] at hplace
  have hlength := hfront.length_le
  have hpos : 0 < (parts store name).length := List.length_pos_iff.2 (parts_ne_nil store name)
  rw [← hplace, List.length_dropLast, List.length_append] at hlength
  omega

theorem open_of_some (h : Storable store outer token name) (hrooted : Rooted store outer)
    (hsound : tree.Sound) (hsome : tree.get? (objectPlace store name) ≠ none) :
    tree.Open [] (outer ++ parts store name).dropLast := by
  intro front hfront raw hfile
  obtain ⟨rest, hrest⟩ := hfront.trans (List.dropLast_prefix _)
  have hlength := hfront.length_le
  have hpos : 0 < (parts store name).length := List.length_pos_iff.2 (parts_ne_nil store name)
  have hne : rest.reverse ≠ [] := by
    rintro hnil
    rw [List.reverse_eq_nil_iff.1 hnil, List.append_nil] at hrest
    rw [hrest, List.length_dropLast, List.length_append] at hlength
    omega
  rw [hrooted.objectPlace_eq h.clean, ← hrest, List.reverse_append] at hsome
  rw [List.append_nil] at hfile
  have hthere := hasDirectory_iff.1 (hsound.hasDirectory_of_below hne hsome)
  rw [hfile] at hthere
  cases hthere

theorem contains_yields_of_not_file (h : Storable store outer token name)
    (hrooted : Rooted store outer) (hbackend : store.backend = .files) (hsound : world.tree.Sound)
    (hfile : ∀ raw, world.tree.get? (objectPlace store name) ≠ some (.file raw)) :
    (store.contains name).Yields world (.ok false) world := by
  apply Store.contains_yields_of_files hbackend
  rw [← existence_of_not_file hsound (h.fits hrooted) hfile]
  exact contains_yields_of_within hsound (hrooted.within h.clean _)

section Write

variable {body : ByteArray} {node : Node}

theorem write_yields_of_some (h : Storable store outer token name) (hrooted : Rooted store outer)
    (hsound : world.tree.Sound) (hspare : Spare token world.tree)
    (hget : world.tree.get? (objectPlace store name) = some node)
    (hcontent : source.content = .ok body) :
    ∃ tree', (write store name source false).Yields world (.ok false) (world.withTree tree')
      ∧ world.tree.Extends tree' (OnWayTo store name)
      ∧ tree'.stat (objectPathname store name) = .ok node := by
  have hsome : world.tree.get? (objectPlace store name) ≠ none := by
    rw [hget]
    simp
  obtain ⟨result, tree', hwrite, hwrote⟩ := write_cases hsound store name source false
  cases hwrote with
  | failed failure _ hextends hwhy =>
    rcases h.obstacle_cases hrooted hsound hspare (h.open_of_some hrooted hsound hsome) hwhy with
      herror | ⟨hreplaces, -⟩
    · rw [hcontent] at herror
      cases herror
    · cases hreplaces
  | skipped body' _ node' hcontent' hextends hwithin hkeeps hstat =>
    have hthere := get?_objectPlace hextends.sound hstat
    rw [hextends.kept _ hsome, hget] at hthere
    cases hthere
    exact ⟨tree', hwrite, hextends, hstat⟩
  | stored body' grown _ hextends hwithin hcontent' hfile hnew hholds hstat =>
    have hthere := hextends.kept _ hsome
    rw [hnew rfl, hget] at hthere
    cases hthere

structure Placed (store : Store) (token : Nat) (name : String) (raw : ByteArray) (tree tree' : Tree) :
    Prop where
  sound : tree'.Sound
  current_eq : tree'.current = tree.current
  spare : Spare token tree'
  at_eq : tree'.get? (objectPlace store name) = some (.file raw)
  file_iff : ∀ place bytes, place ≠ objectPlace store name →
    (tree'.get? place = some (.file bytes) ↔ tree.get? place = some (.file bytes))

theorem placed_of_holds {grown : Tree} (h : Storable store outer token name)
    (hrooted : Rooted store outer) (hspare : Spare token tree)
    (hextends : tree.Extends grown (OnWayTo store name)) {raw : ByteArray}
    (hholds : Holds grown (objectPlace store name) raw tree') :
    Placed store token name raw tree tree' := by
  refine ⟨hholds.sound, hholds.current_eq.trans hextends.current_eq, ?_, hholds.at_eq, ?_⟩
  · exact h.spare_of_holds hrooted (h.spare hrooted hspare hextends) hholds
  · intro place bytes hplace
    rw [hholds.off_eq place hplace, hextends.get?_file_iff]

theorem write_yields_of_none (h : Storable store outer token name) (hrooted : Rooted store outer)
    (hsound : world.tree.Sound) (hspare : Spare token world.tree)
    (hopen : world.tree.Open [] (outer ++ parts store name).dropLast)
    (hget : world.tree.get? (objectPlace store name) = none)
    (hcontent : source.content = .ok body) (overwrite : Bool) :
    ∃ tree', (write store name source overwrite).Yields world (.ok true) (world.withTree tree')
      ∧ Placed store token name (store.raw source) world.tree tree' := by
  -- Directories on the way are not in the place of the object.
  have hnone : ∀ {tree' : Tree}, world.tree.Extends tree' (OnWayTo store name) →
      tree'.get? (objectPlace store name) = none := by
    intro tree' hextends
    apply Classical.byContradiction
    intro hsome
    exact h.not_onWayTo_self hrooted (hextends.added _ hget hsome).2
  obtain ⟨result, tree', hwrite, hwrote⟩ := write_cases hsound store name source overwrite
  cases hwrote with
  | failed failure _ hextends hwhy =>
    rcases h.obstacle_cases hrooted hsound hspare hopen hwhy with herror | ⟨-, hstat⟩
    · rw [hcontent] at herror
      cases herror
    · have hthere := get?_objectPlace hextends.sound hstat
      rw [hnone hextends] at hthere
      cases hthere
  | skipped body' _ node' hcontent' hextends hwithin hkeeps hstat =>
    have hthere := get?_objectPlace hextends.sound hstat
    rw [hnone hextends] at hthere
    cases hthere
  | stored body' grown _ hextends hwithin hcontent' hfile hnew hholds hstat =>
    exact ⟨tree', hwrite, h.placed_of_holds hrooted hspare hextends hholds⟩

theorem serve_leftover (h : Storable store outer token name) (hrooted : Rooted store outer)
    (hbackend : store.backend = .files) (hsound : world.tree.Sound) (hspare : Spare token world.tree)
    (hopen : world.tree.Open [] (outer ++ parts store name).dropLast)
    (hget : world.tree.get? (objectPlace store name) = none)
    (hcontent : source.content = .ok body) (overwrite : Option Bool) :
    ∃ world', store.serve [.write name source overwrite, .delete name] world
        = ([.flag true, .done], world')
      ∧ world'.tree.Sound ∧ Spare token world'.tree ∧ world'.tree.current = world.tree.current
      ∧ world'.tree.hasDirectory (objectPlace store name).tail = true
      ∧ ∀ place raw, world'.tree.get? place = some (.file raw)
          ↔ world.tree.get? place = some (.file raw) := by
  obtain ⟨tree', hwrite, hplaced⟩ := h.write_yields_of_none hrooted hsound hspare hopen hget hcontent
    (store.mayReplace overwrite)
  have hwritten : (store.write name source overwrite).Yields world (.ok true)
      (world.withTree tree') := Store.write_yields_of_files hbackend hwrite
  obtain ⟨records, hafter⟩ := Answer.after_of_yields .flag hwritten
  have hstat : tree'.stat (objectPathname store name) = .ok (.file (store.raw source)) :=
    (stat_objectPathname_iff hplaced.sound).2 ⟨h.fits hrooted, hplaced.at_eq⟩
  have hdeleted : (store.delete name).Yields ((world.withTree tree').withRecords records) (.ok ())
      (((world.withTree tree').withRecords records).withTree
        (tree'.erase (objectPlace store name))) := by
    apply Store.delete_yields_of_files hbackend
    exact delete_yields_of_stat hplaced.sound (hrooted.within h.clean _) hstat
  obtain ⟨records', hafter'⟩ := Answer.after_of_yields (fun _ => .done) hdeleted
  have hne := h.objectPlace_ne_nil hrooted
  obtain ⟨last, directory, hplace⟩ := List.exists_cons_of_ne_nil hne
  refine ⟨(((world.withTree tree').withRecords records).withTree
    (tree'.erase (objectPlace store name))).withRecords records', ?_, ?_, ?_, hplaced.current_eq,
    ?_, ?_⟩
  · simp only [Store.serve, Request.perform]
    rw [hafter]
    simp only
    rw [hafter']
    rfl
  · apply hplaced.sound.erase hne
    unfold hasDirectory
    rw [hplaced.at_eq]
  · exact hplaced.spare.erase hne
  · have hthere := hplaced.at_eq
    rw [hplace] at hthere ⊢
    have hdir := hplaced.sound.closed last directory (by rw [hthere]; simp)
    rw [List.tail_cons, hasDirectory_iff]
    change (tree'.erase (last :: directory)).get? directory = some .directory
    rw [get?_erase_of_ne _ (by simp)]
    exact hdir
  · intro place raw
    change (tree'.erase (objectPlace store name)).get? place = some (.file raw) ↔ _
    by_cases hother : place = objectPlace store name
    · rw [hother, get?_erase_self _ hne, hget]
    · rw [get?_erase_of_ne _ hother, hplaced.file_iff place raw hother]

end Write

end Storable

section Sample

def shelf : Store :=
  { backend := .files, location := ⟨"file", "", "/d"⟩ }

def bare : World :=
  { tree := { nodes := .empty } }

theorem rooted_shelf : Rooted shelf ["d"] :=
  ⟨by decide, by decide⟩

theorem storable_shelf (hclean : Clean shelf name)
    (hshort : ("/" ++ shelf.key name).utf8ByteSize + stagingMargin < maxPathname)
    (hunstaged : ∀ part ∈ ["d"] ++ parts shelf name, isStaging part = false) :
    Storable shelf ["d"] 0 name :=
  ⟨hclean, hshort, by decide, fun part hpart => unused_of_not_staging (hunstaged part hpart) 0⟩

theorem get?_bare (place : Place) : bare.tree.get? place = if place = [] then some .directory else none :=
  rfl

theorem eq_nil_of_bare (h : bare.tree.get? place ≠ none) : place = [] := by
  rw [get?_bare] at h
  by_contra hne
  exact h (if_neg hne)

theorem sound_bare : bare.tree.Sound := by
  constructor
  · intro place target
    rw [get?_bare]
    split <;> simp
  · intro part place hsome
    rw [get?_bare, if_neg (by simp)] at hsome
    exact absurd rfl hsome

theorem fileless_bare (place : Place) (raw : ByteArray) :
    bare.tree.get? place ≠ some (.file raw) := by
  intro hfile
  rw [get?_bare] at hfile
  split at hfile
  · cases hfile
  · cases hfile

theorem spare_bare (token : Nat) : Spare token bare.tree := by
  intro part directory hsome
  rw [get?_bare, if_neg (by simp)] at hsome
  exact absurd rfl hsome

theorem open_bare (names : List String) : bare.tree.Open [] names :=
  fun _ _ raw => fileless_bare _ raw

theorem get?_bare_object (h : Storable shelf ["d"] 0 name) :
    bare.tree.get? (objectPlace shelf name) = none := by
  rw [get?_bare, if_neg (h.objectPlace_ne_nil rooted_shelf)]

theorem storable_a : Storable shelf ["d"] 0 "a" :=
  storable_shelf (by decide) (by decide) (by decide)

end Sample

end Depot.Store.Files
