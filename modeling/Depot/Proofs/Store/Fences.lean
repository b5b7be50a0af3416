import Depot.Proofs.Files.Resolution
import Depot.Proofs.Store.Atomic

/-!
This module contains how far stores in directories reach, over links. A name is checked for where it
resolves to, and then its own entry is written or deleted. What is made, replaced, removed and read
is below the base of the store, unless that entry is the base itself or a link that is elsewhere and
leads back.
-/

namespace Depot

open Depot.Action

namespace Store

variable {store : Store} {name : String} {source : Source} {world : World}

namespace Files

open Depot.Files Depot.Files.Tree

variable {tree grown tree' : Tree} {root place directory : Place} {staging : String}
  {raw : ByteArray} {p : Pathname}

def rootPlace (store : Store) (tree : Tree) : Place :=
  tree.resolvedPlace (base store)

structure Reaches (store : Store) (tree : Tree) (name : String) : Prop where
  key_zero : (objectPathname store name).holdsZero = false
  base_zero : (base store).holdsZero = false
  within : isWithin (rootPlace store tree) (tree.resolvedPlace (objectPathname store name)) = true

/--
Whether the base of a store is a directory or still missing, no link is out of the sight of the
system, and none on the way to the base or to an object leads back to itself.
-/
structure Founded (store : Store) (tree : Tree) (name : String) : Prop where
  absolute : (base store).start ≠ .current
  free : tree.get? (rootPlace store tree) = none
    ∨ tree.get? (rootPlace store tree) = some .directory
  sighted : tree.Sighted
  base_resolves : tree.Resolves (base store)
  object_resolves : tree.Resolves (objectPathname store name)

section Check

theorem resolveFor_of_resolves (hsighted : tree.Sighted) (h : tree.Resolves p)
    (hroot : tree.startOf p = []) (store : Store) (name : String) :
    resolveFor store name tree p
      =
    if p.holdsZero then .error (traversal store name (.malformed .zeroByte))
    else .ok (tree.resolvedPlace p) := by
  unfold resolveFor
  rw [h.resolve_eq hsighted hroot]
  cases p.holdsZero with
  | true => rfl
  | false => rfl

theorem checkedPath_eq (h : Founded store tree name) :
    checkedPath store name tree
      =
    if (objectPathname store name).holdsZero || (base store).holdsZero then
      .error (traversal store name (.malformed .zeroByte))
    else if isWithin (rootPlace store tree) (tree.resolvedPlace (objectPathname store name)) then
      .ok (objectPathname store name)
    else
      .error (traversal store name
        (.outside (tree.resolvedPlace (objectPathname store name)).render
          (rootPlace store tree).render)) := by
  unfold checkedPath rootPlace
  rw [resolveFor_of_resolves h.sighted h.object_resolves (startOf_objectPathname tree store name),
    resolveFor_of_resolves h.sighted h.base_resolves (startOf_of_ne_current tree h.absolute)]
  cases (objectPathname store name).holdsZero with
  | true => rfl
  | false =>
    cases (base store).holdsZero with
    | true => rfl
    | false => rfl

theorem checkedPath_of_reaches (h : Founded store tree name) (hreaches : Reaches store tree name) :
    checkedPath store name tree = .ok (objectPathname store name) := by
  rw [checkedPath_eq h, hreaches.key_zero, hreaches.base_zero, hreaches.within]
  rfl

theorem checkedPath_of_not_reaches (h : Founded store tree name)
    (hnot : ¬Reaches store tree name) :
    ∃ cause, checkedPath store name tree = .error (traversal store name cause) := by
  rw [checkedPath_eq h]
  split
  · exact ⟨_, rfl⟩
  next hzero =>
    rw [Bool.not_eq_true, Bool.or_eq_false_iff] at hzero
    split
    next hwithin => exact absurd ⟨hzero.1, hzero.2, hwithin⟩ hnot
    · exact ⟨_, rfl⟩

end Check

def Below (root place : Place) : Prop :=
  isWithin root place = true ∧ place ≠ root

theorem below_cons_iff : Below root (staging :: directory) ↔ isWithin root directory = true := by
  unfold Below isWithin
  rw [List.isSuffixOf_iff_suffix, List.isSuffixOf_iff_suffix, List.suffix_cons_iff]
  constructor
  · rintro ⟨hsame | hwithin, hne⟩
    · exact absurd hsame.symm hne
    · exact hwithin
  · intro hwithin
    refine ⟨.inr hwithin, ?_⟩
    rintro rfl
    have hlength := hwithin.length_le
    rw [List.length_cons] at hlength
    omega

theorem isWithin_of_tail (h : isWithin root place.tail = true) : isWithin root place = true := by
  unfold isWithin at h ⊢
  rw [List.isSuffixOf_iff_suffix] at h ⊢
  exact h.trans (List.tail_suffix place)

/-- Whether an entry is no part of a store although its name may lead there. -/
def Strays (root : Place) (tree : Tree) (place : Place) : Prop :=
  place = root ∨ isWithin root place = false ∧ ∃ target, tree.get? place = some (.link target)

theorem strays_iff
    (h : isWithin root place = true ∨ ∃ target, tree.get? place = some (.link target)) :
    Strays root tree place ↔ ¬Below root place := by
  unfold Strays Below
  cases hwithin : isWithin root place with
  | true => simp
  | false =>
    rw [hwithin] at h
    have hlink := h.resolve_left Bool.false_ne_true
    simp [hlink]

/-- Whether nothing changes that is not below a place, but that there are new directories. -/
def Fenced (root : Place) (tree tree' : Tree) : Prop :=
  ∀ place, ¬Below root place → tree'.get? place = tree.get? place
    ∨ tree.get? place = none ∧ tree'.get? place = some .directory

namespace Fenced

theorem of_grows (root : Place) (h : tree.Grows tree') : Fenced root tree tree' :=
  fun place _ => h.get?_cases place

theorem of_gains (hgrows : tree.Grows grown) (hgains : Gains grown place raw tree')
    (h : Below root place) : Fenced root tree tree' := by
  intro other hother
  have hne : other ≠ place := by
    rintro rfl
    exact hother h
  rw [hgains.off_eq other hne]
  exact hgrows.get?_cases other

theorem below_of_gains (h : Fenced root tree tree') (hgrows : tree.Grows grown)
    (hgains : Gains grown place raw tree') (hnew : grown.get? place = none) : Below root place := by
  apply Classical.byContradiction
  intro hout
  have hnone : tree.get? place = none := by
    rcases hgrows.get?_cases place with hsame | ⟨hnone, -⟩
    · rw [← hsame, hnew]
    · exact hnone
  rcases h place hout with hsame | ⟨-, hdirectory⟩
  · rw [hgains.at_eq, hnone] at hsame
    cases hsame
  · rw [hgains.at_eq] at hdirectory
    cases hdirectory

theorem erase_iff (hne : place ≠ []) (hsome : tree.get? place ≠ none) :
    Fenced root tree (tree.erase place) ↔ Below root place := by
  constructor
  · intro h
    apply Classical.byContradiction
    intro hout
    rcases h place hout with hsame | ⟨hnone, -⟩
    · rw [get?_erase_self _ hne] at hsame
      exact hsome hsame.symm
    · exact hsome hnone
  · intro h other hother
    left
    apply get?_erase_of_ne
    rintro rfl
    exact hother h

end Fenced

section Entries

theorem within_iff_not_strays (h : Founded store tree name) (hreaches : Reaches store tree name)
    (hgrows : tree.Grows grown)
    (hleads : grown.Leads (objectPathname store name).start
      (objectPathname store name).names.dropLast directory) :
    isWithin (rootPlace store tree) directory = true
      ↔ ∀ place, entryOf? directory (objectPathname store name) = some place →
        ¬Strays (rootPlace store tree) tree place := by
  have hwithin := hreaches.within
  rcases h.object_resolves.cases_of_leads h.sighted hgrows hleads with
    ⟨hnone, hplace⟩ | ⟨place, hsome, hplace⟩
  · -- The name ends in dots, so that its object is the directory or the one that it is in.
    rw [hnone]
    have hinside : isWithin (rootPlace store tree) directory = true := by
      rcases hplace with hsame | htail
      · rw [hsame] at hwithin
        exact hwithin
      · rw [htail] at hwithin
        exact isWithin_of_tail hwithin
    simp [hinside]
  · have hlinked : isWithin (rootPlace store tree) place = true
        ∨ ∃ target, tree.get? place = some (.link target) := by
      rcases hplace with hsame | hlink
      · rw [hsame] at hwithin
        exact .inl hwithin
      · exact .inr hlink
    obtain ⟨last, -, rfl⟩ := exists_of_entryOf? hsome
    rw [hsome]
    simp only [Option.some.injEq, forall_eq']
    rw [strays_iff hlinked, Classical.not_not, below_cons_iff]

theorem below_of_stat (h : Founded store tree name) (hreaches : Reaches store tree name)
    (hstat : tree.stat (objectPathname store name) = .ok (.file raw)) :
    ∃ place, Below (rootPlace store tree) place ∧ tree.get? place = some (.file raw) := by
  obtain ⟨place, hlocate, hget⟩ := stat_eq_ok_iff.1 hstat
  have hwithin := hreaches.within
  rw [h.object_resolves.locate_eq h.sighted hlocate] at hwithin
  refine ⟨place, ⟨hwithin, ?_⟩, hget⟩
  rintro rfl
  rcases h.free with hnone | hdirectory
  · rw [hnone] at hget
    cases hget
  · rw [hdirectory] at hget
    cases hget

end Entries

section Write

def fill (store : Store) (name : String) (source : Source) : Action Unit := do
  let (_, staging) ← prepare store name
  fillFile staging source store.compression

def stagingPlace? (store : Store) (name : String) (tree : Tree) : Option Place :=
  match directories store name tree with
  | (.error _, _) => none
  | (.ok _, grown) =>
    match grown.entry? (beside (objectPathname store name)
      (freshStaging grown (objectPathname store name))) with
    | .ok place => place
    | .error _ => none

theorem stagingPlace?_of_error {error : SystemError}
    (h : (directories store name tree).1 = .error error) :
    stagingPlace? store name tree = none := by
  unfold stagingPlace?
  rcases hmade : directories store name tree with ⟨result, grown⟩
  rw [hmade] at h
  cases h
  rfl

theorem stagingPlace?_of_leads (hmade : (directories store name tree).1 = .ok ())
    (hleads : (directories store name tree).2.Leads (objectPathname store name).start
      (objectPathname store name).names.dropLast directory) :
    stagingPlace? store name tree
      =
    if refuses (objectPathname store name).start (objectPathname store name).names.dropLast
        (stagingOf store name tree) then none
    else some (stagingOf store name tree :: directory) := by
  obtain ⟨number, hname, -⟩ :=
    freshStaging_spec (directories store name tree).2 (objectPathname store name)
  have hplain : isDots (stagingOf store name tree) = false := by
    unfold stagingOf
    rw [hname]
    exact isDots_stagingName _ number
  have hentry := hleads.entry?_eq (stagingOf store name tree)
  rw [Leads.lastPlace?_plain hplain] at hentry
  unfold stagingPlace?
  unfold stagingOf at hentry ⊢
  rcases hgrown : directories store name tree with ⟨result, grown⟩
  rw [hgrown] at hmade hentry
  dsimp only at hmade hentry ⊢
  rw [hmade]
  unfold beside Pathname.parent Pathname.child
  dsimp only
  rw [hentry]
  cases refuses (objectPathname store name).start (objectPathname store name).names.dropLast
      (freshStaging grown (objectPathname store name)) with
  | true => rfl
  | false => rfl

inductive Filled (store : Store) (name : String) (tree : Tree) : Tree → Prop where
  | unstaged (hnone : stagingPlace? store name tree = none) :
      Filled store name tree (directories store name tree).2
  | staged (directory : Place) (staging : String) (raw : ByteArray) (tree' : Tree)
      (hstaging : stagingPlace? store name tree = some (staging :: directory))
      (hleads : (directories store name tree).2.Leads (objectPathname store name).start
        (objectPathname store name).names.dropLast directory)
      (hfits : exceeds (objectPathname store name) = false)
      (hnew : (directories store name tree).2.get? (staging :: directory) = none)
      (hgains : Gains (directories store name tree).2 (staging :: directory) raw tree') :
      Filled store name tree tree'

theorem Room.fillFile_gains {target : Pathname} (h : Room world.tree target directory staging)
    (source : Source) (store : Store) :
    ∃ result raw tree', (fillFile (beside target staging) source store.compression).Yields world
        result (world.withTree tree')
      ∧ Gains world.tree (staging :: directory) raw tree' := by
  cases hcontent : source.content with
  | error failure =>
    exact ⟨_, _, _, h.fillFile_yields_of_error hcontent _, Gains.insert world.tree (by simp) _⟩
  | ok body =>
    obtain ⟨tree', hfill, hgains⟩ := h.fillFile_yields_of_ok store hcontent
    exact ⟨_, _, tree', hfill, hgains⟩

theorem fill_cases (hpath : checkedPath store name world.tree = .ok (objectPathname store name))
    (source : Source) :
    ∃ result tree', (fill store name source).Yields world result (world.withTree tree')
      ∧ Filled store name world.tree tree' := by
  cases hmade : (directories store name world.tree).1 with
  | error error =>
    exact ⟨_, _, (prepare_yields_of_error hpath hmade).bind_error,
      .unstaged (stagingPlace?_of_error hmade)⟩
  | ok done =>
    have hprepare := prepare_yields_of_ok hpath hmade
    obtain ⟨directory, hleads⟩ := directories_leads hmade
    have hstaging := stagingPlace?_of_leads hmade hleads
    cases hfits : refuses (objectPathname store name).start
        (objectPathname store name).names.dropLast (stagingOf store name world.tree) with
    | true =>
      rw [hfits, if_pos rfl] at hstaging
      have hleads' : (world.withTree (directories store name world.tree).2).tree.Leads
          (objectPathname store name).start (objectPathname store name).names.dropLast
          directory := hleads
      obtain ⟨failure, hfill⟩ := fillFile_yields_of_refuses hleads' hfits source store.compression
      exact ⟨_, _, hprepare.bind hfill, .unstaged hstaging⟩
    | false =>
      rw [hfits, if_neg Bool.false_ne_true] at hstaging
      obtain ⟨hroom, hexceeds, -⟩ := room_of_fits hleads hfits
      have hroom' : Room (world.withTree (directories store name world.tree).2).tree
          (objectPathname store name) directory (stagingOf store name world.tree) := hroom
      obtain ⟨result, raw, tree', hfill, hgains⟩ := hroom'.fillFile_gains source store
      exact ⟨_, tree', hprepare.bind hfill,
        .staged directory _ raw tree' hstaging hleads hexceeds (hroom.free directory) hgains⟩

def targetPlace? (store : Store) (name : String) (tree : Tree) : Option Place :=
  match entry? (directories store name tree).2 (objectPathname store name) with
  | .ok place => place
  | .error _ => none

def StagesAstray (store : Store) (name : String) (tree : Tree) : Prop :=
  ∃ staging place, stagingPlace? store name tree = some staging
    ∧ targetPlace? store name tree = some place ∧ Strays (rootPlace store tree) tree place

theorem within_iff_not_stagesAstray (h : Founded store tree name)
    (hreaches : Reaches store tree name)
    (hleads : (directories store name tree).2.Leads (objectPathname store name).start
      (objectPathname store name).names.dropLast directory)
    (hfits : exceeds (objectPathname store name) = false)
    (hstaging : stagingPlace? store name tree = some place) :
    isWithin (rootPlace store tree) directory = true ↔ ¬StagesAstray store name tree := by
  have htarget : targetPlace? store name tree = entryOf? directory (objectPathname store name) := by
    unfold targetPlace?
    rw [hleads.entry?_pathname hfits]
  rw [within_iff_not_strays h hreaches (directories_grows store name tree) hleads]
  unfold StagesAstray
  rw [htarget, hstaging]
  simp

theorem Filled.fenced_iff (h : Founded store tree name) (hreaches : Reaches store tree name)
    (hfilled : Filled store name tree tree') :
    Fenced (rootPlace store tree) tree tree' ↔ ¬StagesAstray store name tree := by
  have hgrows := directories_grows store name tree
  cases hfilled with
  | unstaged hnone =>
    have hnot : ¬StagesAstray store name tree := by
      rintro ⟨staging, -, hsome, -⟩
      rw [hnone] at hsome
      cases hsome
    simp [hnot, Fenced.of_grows _ hgrows]
  | staged directory staging raw _ hstaging hleads hfits hnew hgains =>
    rw [← within_iff_not_stagesAstray h hreaches hleads hfits hstaging]
    constructor
    · intro hfenced
      exact below_cons_iff.1 (hfenced.below_of_gains hgrows hgains hnew)
    · intro hwithin
      exact .of_gains hgrows hgains (below_cons_iff.2 hwithin)

theorem Tried.fenced (h : Founded store tree name) (hreaches : Reaches store tree name)
    {replaces : Bool} {result : Except Failure Bool}
    (htried : Tried store name source replaces tree result tree')
    (hnot : ¬StagesAstray store name tree) : Fenced (rootPlace store tree) tree tree' := by
  have hgrows := directories_grows store name tree
  cases htried with
  | outside failure hpath => exact .of_grows _ (.refl tree)
  | noDirectory error hpath hmade => exact .of_grows _ hgrows
  | tooLong failure hpath hlong => exact .of_grows _ hgrows
  | staged directory _ _ hpath hmade hshort hleads hfits hstaged =>
    cases hstaged with
    | failed failure _ hsame hwhy => exact .of_grows _ (hgrows.of_same hsame)
    | skipped body _ hcontent hsame hkeeps hfound => exact .of_grows _ (hgrows.of_same hsame)
    | stored body place _ hcontent hentry hfile hnew hgains =>
      have hstaging := stagingPlace?_of_leads hmade hleads
      rw [hshort, if_neg Bool.false_ne_true] at hstaging
      have hwithin := (within_iff_not_stagesAstray h hreaches hleads hfits hstaging).2 hnot
      obtain ⟨last, -, rfl⟩ := exists_of_entryOf? hentry
      exact .of_gains hgrows hgains (below_cons_iff.2 hwithin)

end Write

section Delete

def NamesAstray (store : Store) (name : String) (tree : Tree) : Prop :=
  ∃ place, tree.entry? (objectPathname store name) = .ok (some place)
    ∧ Strays (rootPlace store tree) tree place

inductive Unlinked (store : Store) (name : String) (tree : Tree) : Except Failure Unit → Tree → Prop
    where
  | kept (failure : Failure) : Unlinked store name tree (.error failure) tree
  | removed (tree' : Tree) (hunlink : tree.unlink (objectPathname store name) = .ok tree') :
      Unlinked store name tree (.ok ()) tree'

theorem delete_unlinks
    (hpath : checkedPath store name world.tree = .ok (objectPathname store name)) :
    ∃ result tree', (delete store name).Yields world result (world.withTree tree')
      ∧ Unlinked store name world.tree result tree' := by
  have hchecked := objectPath_yields_checkedPath store name world
  rw [hpath] at hchecked
  rw [delete_eq]
  cases hdir : world.tree.isDirectory (objectPathname store name) with
  | error code =>
    exact ⟨_, world.tree, hchecked.bind (remove_yields_of_unknown hdir store name), .kept _⟩
  | ok isDir =>
    cases isDir with
    | true =>
      exact ⟨_, world.tree, hchecked.bind (remove_yields_of_directory hdir store name), .kept _⟩
    | false =>
      cases hunlink : world.tree.unlink (objectPathname store name) with
      | error code =>
        exact ⟨_, world.tree, hchecked.bind (remove_yields_of_error hdir hunlink store name),
          .kept _⟩
      | ok tree' =>
        exact ⟨_, tree', hchecked.bind (remove_yields_of_unlink hdir hunlink store name),
          .removed tree' hunlink⟩

theorem Unlinked.fenced_iff (h : Founded store tree name) (hreaches : Reaches store tree name)
    {result : Except Failure Unit} (hunlinked : Unlinked store name tree result tree') :
    Fenced (rootPlace store tree) tree tree'
      ↔ ¬(result = .ok () ∧ NamesAstray store name tree) := by
  cases hunlinked with
  | kept failure => simp [Fenced.of_grows _ (.refl tree)]
  | removed _ hunlink =>
    obtain ⟨place, node, hentry, hget, -, rfl⟩ := exists_of_unlink hunlink
    obtain ⟨outer, last, directory, hnames, rfl, hleads, hdots, hfits⟩ := entry?_some hentry
    have houter : (objectPathname store name).names.dropLast = outer := by
      rw [hnames, List.dropLast_concat]
    rw [← houter] at hleads
    have hplace : entryOf? directory (objectPathname store name) = some (last :: directory) := by
      unfold entryOf?
      rw [hnames, List.getLast?_concat, Option.bind_some, Leads.lastPlace?_plain hdots]
    have hsome : tree.get? (last :: directory) ≠ none := by
      rw [hget]
      simp
    rw [Fenced.erase_iff (by simp) hsome, below_cons_iff,
      within_iff_not_strays h hreaches (.refl tree) hleads]
    unfold NamesAstray
    rw [hplace, hentry]
    simp

end Delete

end Files

structure Refuses (store : Store) (name : String) (world : World) (failure : Failure) : Prop where
  fill : ∀ source, (Files.fill store name source).Yields world (.error failure) world
  write : ∀ source overwrite,
    (store.write name source overwrite).Yields world (.error failure) world
  openReader : (store.openReader name).Yields world (.error failure) world
  delete : (store.delete name).Yields world (.error failure) world
  contains : (store.contains name).Yields world (.error failure) world

structure Touches (store : Store) (name : String) (world : World) : Prop where
  write_iff : ∀ source overwrite,
    Files.Fenced (Files.rootPlace store world.tree) world.tree
          ((Files.fill store name source).perform world).2.tree
        ∧ Files.Fenced (Files.rootPlace store world.tree) world.tree
          ((store.write name source overwrite).perform world).2.tree
      ↔ ¬Files.StagesAstray store name world.tree
  delete_iff :
    Files.Fenced (Files.rootPlace store world.tree) world.tree
        ((store.delete name).perform world).2.tree
      ↔ ¬(((store.delete name).perform world).1 = .ok () ∧ Files.NamesAstray store name world.tree)
  openReader : ((store.openReader name).perform world).2.tree = world.tree
    ∧ ∀ reader, ((store.openReader name).perform world).1 = .ok reader →
      ∃ place raw, Files.Below (Files.rootPlace store world.tree) place
        ∧ world.tree.get? place = some (.file raw)
        ∧ reader.body = .ofBytes store.compression raw
  contains : ((store.contains name).perform world).2.tree = world.tree
    ∧ (((store.contains name).perform world).1 = .ok true →
      ∃ place raw, Files.Below (Files.rootPlace store world.tree) place
        ∧ world.tree.get? place = some (.file raw))

theorem refuses_of_checked (hfiles : store.backend = .files) {failure : Failure}
    (hpath : Files.checkedPath store name world.tree = .error failure) :
    store.Refuses name world failure := by
  have hchecked := Files.objectPath_yields_checkedPath store name world
  rw [hpath] at hchecked
  exact ⟨fun source => (Files.prepare_yields_of_outside hpath).bind_error,
    fun source overwrite => write_yields_of_files hfiles hchecked.bind_error,
    openReader_yields_of_error (openRaw_yields_of_files hfiles hchecked.bind_error),
    delete_yields_of_files hfiles hchecked.bind_error,
    contains_yields_of_files hfiles hchecked.bind_error⟩

section Reached

variable (hfiles : store.backend = .files) (h : Files.Founded store world.tree name)
  (hreaches : Files.Reaches store world.tree name)

include hfiles h hreaches

theorem openReader_touches :
    ((store.openReader name).perform world).2.tree = world.tree
      ∧ ∀ reader, ((store.openReader name).perform world).1 = .ok reader →
        ∃ place raw, Files.Below (Files.rootPlace store world.tree) place
          ∧ world.tree.get? place = some (.file raw)
          ∧ reader.body = .ofBytes store.compression raw := by
  obtain ⟨result, hkeeps⟩ := openReader_keeps store name world
  obtain ⟨records, hperform⟩ := hkeeps.perform_eq
  refine ⟨by rw [hperform]; rfl, ?_⟩
  intro reader hreader
  have hchecked := Files.objectPath_yields_checkedPath store name world
  rw [Files.checkedPath_of_reaches h hreaches] at hchecked
  have hraw : (store.openRaw name).Yields world
      ((world.tree.content (Files.objectPathname store name)).mapError
        (Files.objectFailure store name (Files.objectPathname store name))) world :=
    openRaw_yields_of_files hfiles (Files.openRaw_yields_of_path hchecked)
  cases hcontent : world.tree.content (Files.objectPathname store name) with
  | error code =>
    rw [hcontent] at hraw
    rw [(openReader_yields_of_error hraw).fst_eq] at hreader
    cases hreader
  | ok raw =>
    rw [hcontent] at hraw
    obtain ⟨opened, hopened, hbody, -⟩ := openReader_yields_of_ok hraw
    rw [hopened.fst_eq] at hreader
    cases hreader
    obtain ⟨place, hbelow, hget⟩ :=
      Files.below_of_stat h hreaches (Depot.Files.Tree.content_eq_ok_iff.1 hcontent)
    exact ⟨place, raw, hbelow, hget, hbody⟩

theorem contains_touches :
    ((store.contains name).perform world).2.tree = world.tree
      ∧ (((store.contains name).perform world).1 = .ok true →
        ∃ place raw, Files.Below (Files.rootPlace store world.tree) place
          ∧ world.tree.get? place = some (.file raw)) := by
  have hchecked := Files.objectPath_yields_checkedPath store name world
  rw [Files.checkedPath_of_reaches h hreaches] at hchecked
  have hcontains : (store.contains name).Yields world
      (Files.existence world.tree (Files.objectPathname store name)) world :=
    contains_yields_of_files hfiles (Files.contains_yields_of_path hchecked)
  obtain ⟨records, hperform⟩ := hcontains.perform_eq
  rw [hperform]
  refine ⟨rfl, fun htrue => ?_⟩
  obtain ⟨raw, hstat⟩ := Files.existence_eq_ok_true_iff.1 htrue
  obtain ⟨place, hbelow, hget⟩ := Files.below_of_stat h hreaches hstat
  exact ⟨place, raw, hbelow, hget⟩

theorem delete_touches :
    Files.Fenced (Files.rootPlace store world.tree) world.tree
        ((store.delete name).perform world).2.tree
      ↔ ¬(((store.delete name).perform world).1 = .ok ()
          ∧ Files.NamesAstray store name world.tree) := by
  obtain ⟨result, tree', hyields, hunlinked⟩ :=
    Files.delete_unlinks (Files.checkedPath_of_reaches h hreaches)
  have hdelete := delete_yields_of_files hfiles hyields
  obtain ⟨records, hperform⟩ := hdelete.perform_eq
  rw [hperform]
  exact hunlinked.fenced_iff h hreaches

theorem write_touches (source : Source) (overwrite : Option Bool) :
    Files.Fenced (Files.rootPlace store world.tree) world.tree
          ((Files.fill store name source).perform world).2.tree
        ∧ Files.Fenced (Files.rootPlace store world.tree) world.tree
          ((store.write name source overwrite).perform world).2.tree
      ↔ ¬Files.StagesAstray store name world.tree := by
  obtain ⟨result, tree', hfill, hfilled⟩ :=
    Files.fill_cases (Files.checkedPath_of_reaches h hreaches) source
  obtain ⟨records, hperform⟩ := hfill.perform_eq
  rw [hperform]
  have hiff := hfilled.fenced_iff h hreaches
  rcases hwrite : (store.write name source overwrite).perform world with ⟨written, world'⟩
  obtain ⟨tree'', records', rfl, htried⟩ := tried_of_performs hfiles hwrite
  exact ⟨fun hfenced => hiff.1 hfenced.1,
    fun hnot => ⟨hiff.2 hnot, htried.fenced h hreaches hnot⟩⟩

end Reached

/--
Below the base of a store, and nowhere else, is what operations on a name make, replace, remove and
read, new directories apart. A name that leads elsewhere is refused. There are two exceptions: a
write makes its staging file next to an entry that is the base or a link elsewhere, and a deletion
removes such a link.
-/
theorem operations_fenced (hfiles : store.backend = .files)
    (h : Files.Founded store world.tree name) :
    (¬Files.Reaches store world.tree name →
        ∃ cause, store.Refuses name world (Files.traversal store name cause))
      ∧ (Files.Reaches store world.tree name → store.Touches name world) := by
  constructor
  · intro hnot
    obtain ⟨cause, hpath⟩ := Files.checkedPath_of_not_reaches h hnot
    exact ⟨cause, refuses_of_checked hfiles hpath⟩
  · intro hreaches
    exact ⟨write_touches hfiles h hreaches, delete_touches hfiles h hreaches,
      openReader_touches hfiles h hreaches, contains_touches hfiles h hreaches⟩

section Sample

open Depot.Files Files Depot.Files.Tree

/-- A world with a link that leads out of a store, to another that leads back to an object. -/
def winding : World :=
  { tree :=
      { nodes :=
          ((((Table.empty.insert ["d"] .directory).insert ["x", "d"] (.file .empty)).insert ["out"]
            .directory).insert ["out", "d"] (.link "../out")).insert ["back", "out"]
              (.link "../d/x") } }

theorem get?_winding :
    winding.tree.get? ["d"] = some .directory ∧ winding.tree.get? ["x", "d"] = some (.file .empty)
      ∧ winding.tree.get? ["out"] = some .directory
      ∧ winding.tree.get? ["out", "d"] = some (.link "../out")
      ∧ winding.tree.get? ["back", "out"] = some (.link "../d/x") :=
  ⟨rfl, rfl, rfl, rfl, rfl⟩

theorem linkAt?_winding :
    winding.tree.linkAt? ["d"] = none ∧ winding.tree.linkAt? ["x", "d"] = none
      ∧ winding.tree.linkAt? ["out"] = none
      ∧ winding.tree.linkAt? ["out", "d"] = some "../out"
      ∧ winding.tree.linkAt? ["back", "out"] = some "../d/x" := by
  have htakes : takes (Place.pathname ["out", "d"]) = true
      ∧ takes (Place.pathname ["back", "out"]) = true := by decide
  simp [linkAt?, get?_winding, htakes]

theorem sighted_bare : bare.tree.Sighted :=
  fun place target hget => absurd hget (sound_bare.linkless place target)

theorem sighted_winding : winding.tree.Sighted :=
  ((((sighted_bare.insert (by simp)).insert (by simp)).insert (by simp)).insert
    fun _ _ => by decide).insert fun _ _ => by decide

theorem links_winding :
    (linkStart ["d"] "../out" = ["d"] ∧ linkNames "../out" = ["..", "out"])
      ∧ linkStart ["out"] "../d/x" = ["out"] ∧ linkNames "../d/x" = ["..", "d", "x"] := by
  decide

theorem resolveNames_winding :
    winding.tree.resolveNames winding.tree.nodes.entries.length [] [] ["d"] = .place ["d"]
      ∧ winding.tree.resolveNames winding.tree.nodes.entries.length [] [] ["out", "back"]
        = .place ["x", "d"]
      ∧ winding.tree.resolveNames winding.tree.nodes.entries.length [] [] ["d", "out", "back"]
        = .place ["x", "d"] := by
  have hlength : winding.tree.nodes.entries.length = 5 := rfl
  rw [hlength]
  simp [resolveNames, isDots, enter, linkAt?_winding, links_winding]

theorem follow_winding :
    winding.tree.follow false maxLinks [] ["d", "out", "back"] = .ok ["x", "d"]
      ∧ winding.tree.follow false maxLinks [] ["d", "out"] = .ok ["out"] := by
  have hshort : isTooLong "d" = false ∧ isTooLong "out" = false ∧ isTooLong "back" = false
      ∧ isTooLong "x" = false := by decide
  simp [follow, maxLinks, hasDirectory, hshort, get?_root, get?_winding, links_winding]

theorem rootPlace_shelf {tree : Depot.Files.Tree}
    (h : tree.resolveNames tree.nodes.entries.length [] [] ["d"] = .place ["d"]) :
    rootPlace shelf tree = ["d"] := by
  have hbase : base shelf = ⟨.root, ["d"]⟩ := by decide
  unfold rootPlace
  rw [hbase]
  exact resolvedPlace_eq h

theorem founded_shelf {tree : Depot.Files.Tree} {place : Depot.Files.Place} {names : List String}
    (hsighted : tree.Sighted)
    (hbase : tree.resolveNames tree.nodes.entries.length [] [] ["d"] = .place ["d"])
    (hfree : tree.get? ["d"] = none ∨ tree.get? ["d"] = some .directory)
    (hp : objectPathname shelf name = ⟨.root, names⟩)
    (hobject : tree.resolveNames tree.nodes.entries.length [] [] names = .place place) :
    Founded shelf tree name := by
  have hpathname : base shelf = ⟨.root, ["d"]⟩ := by decide
  refine ⟨by decide, ?_, hsighted, ⟨["d"], ?_⟩, ⟨place, ?_⟩⟩
  · rw [rootPlace_shelf hbase]
    exact hfree
  · rw [hpathname]
    exact hbase
  · rw [hp]
    exact hobject

theorem reaches_shelf {tree : Depot.Files.Tree} {place : Depot.Files.Place} {names : List String}
    (hbase : tree.resolveNames tree.nodes.entries.length [] [] ["d"] = .place ["d"])
    (hp : objectPathname shelf name = ⟨.root, names⟩)
    (hobject : tree.resolveNames tree.nodes.entries.length [] [] names = .place place)
    (hzero : Pathname.holdsZero ⟨.root, names⟩ = false) (hwithin : isWithin ["d"] place = true) :
    Reaches shelf tree name := by
  refine ⟨?_, by decide, ?_⟩
  · rw [hp]
    exact hzero
  · rw [rootPlace_shelf hbase, hp, resolvedPlace_eq hobject]
    exact hwithin

theorem objectPathname_back : objectPathname shelf "out/back" = ⟨.root, ["d", "out", "back"]⟩ := by
  rw [objectPathname]
  decide

theorem founded_back : Founded shelf winding.tree "out/back" :=
  founded_shelf sighted_winding resolveNames_winding.1 (.inr rfl) objectPathname_back
    resolveNames_winding.2.2

theorem reaches_back : Reaches shelf winding.tree "out/back" :=
  reaches_shelf resolveNames_winding.1 objectPathname_back resolveNames_winding.2.2 (by decide)
    (by decide)

theorem operations_fenced_back :
    shelf.backend = .files ∧ Founded shelf winding.tree "out/back"
      ∧ Reaches shelf winding.tree "out/back" ∧ shelf.Touches "out/back" winding :=
  ⟨rfl, founded_back, reaches_back, (operations_fenced rfl founded_back).2 reaches_back⟩

theorem delete_back_performs :
    ∃ world', (shelf.delete "out/back").perform winding = (.ok (), world')
      ∧ world'.tree = winding.tree.erase ["back", "out"] := by
  have hp := objectPathname_back
  have hlocate : winding.tree.locate (objectPathname shelf "out/back") = .ok ["x", "d"] := by
    rw [hp]
    exact locate_eq_ok_iff.2 ⟨by decide, follow_winding.1⟩
  have hdir : winding.tree.isDirectory (objectPathname shelf "out/back") = .ok false :=
    isDirectory_of_file (stat_eq_ok_iff.2 ⟨_, hlocate, get?_winding.2.1⟩)
  have hleads : winding.tree.Leads .root ["d", "out"] ["out"] := ⟨follow_winding.2, rfl⟩
  have hunlink : winding.tree.unlink (objectPathname shelf "out/back")
      = .ok (winding.tree.erase ["back", "out"]) := by
    rw [hp]
    exact hleads.unlink_eq "back"
  have hchecked := objectPath_yields_checkedPath shelf "out/back" winding
  rw [checkedPath_of_reaches founded_back reaches_back] at hchecked
  have hdelete : (shelf.delete "out/back").Yields winding (.ok ())
      (winding.withTree (winding.tree.erase ["back", "out"])) := by
    apply delete_yields
    exact hchecked.bind (remove_yields_of_unlink hdir hunlink shelf "out/back")
  obtain ⟨records, hperform⟩ := hdelete.perform_eq
  exact ⟨_, hperform, rfl⟩

theorem objectPathname_base : objectPathname shelf "" = ⟨.root, ["d"]⟩ := by
  rw [objectPathname]
  decide

theorem resolveNames_bare :
    bare.tree.resolveNames bare.tree.nodes.entries.length [] [] ["d"] = .place ["d"] := by
  have hlink : bare.tree.linkAt? ["d"] = none := rfl
  simp [resolveNames, isDots, hlink]

theorem founded_base : Founded shelf bare.tree "" :=
  founded_shelf sighted_bare resolveNames_bare (.inl rfl) objectPathname_base resolveNames_bare

theorem reaches_base : Reaches shelf bare.tree "" :=
  reaches_shelf resolveNames_bare objectPathname_base resolveNames_bare (by decide) (by decide)

theorem write_base_performs :
    ∃ world', (shelf.write "" (.ofBytes .empty) (some true)).perform bare = (.ok true, world')
      ∧ world'.tree.get? ["d"] = some (.file (shelf.raw (.ofBytes .empty))) := by
  have hpath := checkedPath_of_reaches founded_base reaches_base
  rw [objectPathname_base] at hpath
  have hmade : bare.tree.makeDirectories .root [] = (.ok (), bare.tree) := by
    rw [makeDirectories_nil]
    unfold finishDirectory acceptDirectory
    rw [(Leads.root _).isDirectory_of_short (by decide)]
    rfl
  have hentry : bare.tree.entry? ⟨.root, ["d"]⟩ = .ok (some ["d"]) :=
    (Leads.root _).entry?_eq "d"
  obtain ⟨world', hperform, hgains⟩ := replace_performs rfl objectPathname_base hpath hmade
    (by decide) hentry (by decide) (Source.content_ofBytes .empty)
  exact ⟨world', hperform, hgains.at_eq⟩

/--
A write makes a file of the base, and a deletion removes a link outside, although both names pass
the check.
-/
theorem operations_unfenced :
    (Founded shelf bare.tree ""
        ∧ ∃ world', (shelf.write "" (.ofBytes .empty) (some true)).perform bare = (.ok true, world')
          ∧ ¬Fenced (rootPlace shelf bare.tree) bare.tree world'.tree)
      ∧ Founded shelf winding.tree "out/back"
      ∧ ∃ world', (shelf.delete "out/back").perform winding = (.ok (), world')
        ∧ ¬Fenced (rootPlace shelf winding.tree) winding.tree world'.tree := by
  obtain ⟨written, hwrite, hfile⟩ := write_base_performs
  obtain ⟨deleted, hdelete, herased⟩ := delete_back_performs
  refine ⟨⟨founded_base, written, hwrite, fun hfenced => ?_⟩, founded_back, deleted, hdelete,
    fun hfenced => ?_⟩
  · rw [rootPlace_shelf resolveNames_bare] at hfenced
    have hbelow : ¬Below ["d"] ["d"] := fun hbelow => hbelow.2 rfl
    rcases hfenced ["d"] hbelow with hsame | ⟨-, hdirectory⟩
    · rw [hfile] at hsame
      cases hsame
    · rw [hfile] at hdirectory
      cases hdirectory
  · rw [rootPlace_shelf resolveNames_winding.1, herased,
      Fenced.erase_iff (by simp) (by rw [get?_winding.2.2.2.2]; simp)] at hfenced
    have hwithin : isWithin ["d"] ["back", "out"] = false := by decide
    rw [hfenced.1] at hwithin
    cases hwithin

end Sample

end Store

end Depot
