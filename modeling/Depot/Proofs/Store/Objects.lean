import Depot.Proofs.Files.Pathname
import Depot.Proofs.Files.Settled
import Depot.Proofs.Store.Publish

/-!
This module contains the theory of the operations on objects that are files: what each of them gives
in a tree without links, and what it leaves there.
-/

namespace Depot.Store.Files

open Depot.Files Depot.Action Depot.Files.Tree

variable {store : Store} {name : String} {source : Source} {overwrite : Bool} {world : World}
  {tree tree' : Tree} {failure : Failure} {target : Pathname} {directory : Place} {body : ByteArray}

theorem startOf_of_ne_current (tree : Tree) {p : Pathname} (h : p.start ≠ .current) :
    tree.startOf p = [] := by
  unfold startOf
  split
  next hcurrent => exact absurd hcurrent h
  · rfl
  · rfl

theorem startOf_parent (tree : Tree) {p : Pathname} (h : p.start ≠ .current) :
    tree.startOf ⟨p.start, p.names.dropLast⟩ = [] :=
  startOf_of_ne_current tree h

theorem start_keyPath (key : String) : (keyPath key).start ≠ .current := by
  have hlist : ("/" ++ key).toList = '/' :: key.toList := by simp
  unfold keyPath Pathname.parse
  dsimp only
  rw [hlist]
  unfold Pathname.startOf
  split <;> simp_all

theorem names_keyPath (key : String) :
    (keyPath key).names = Pathname.keptNames (Text.splitOn '/' key.toList) := by
  have hlist : ("/" ++ key).toList = '/' :: key.toList := by simp
  unfold keyPath
  rw [Pathname.names_parse_eq, hlist, Text.splitOn_sep]
  rfl

theorem start_objectPathname (store : Store) (name : String) :
    (objectPathname store name).start ≠ .current := by
  rw [objectPathname]
  exact start_keyPath (store.key name)

theorem startOf_objectPathname (tree : Tree) (store : Store) (name : String) :
    tree.startOf (objectPathname store name) = [] :=
  startOf_of_ne_current tree (start_objectPathname store name)

theorem settled_objectPathname (store : Store) (name : String) :
    Pathname.Settled (objectPathname store name).names := by
  rw [objectPathname]
  exact Pathname.settled_parse _

def objectPlace (store : Store) (name : String) : Place :=
  (objectPathname store name).names.foldl enter []

def OnWayTo (store : Store) (name : String) (place : Place) : Prop :=
  OnWay [] (objectPathname store name).names.dropLast place

theorem exceeds_of_staging {number : Nat}
    (h : refuses target.start target.names.dropLast (stagingName target.name number) = false) :
    exceeds target = false := by
  obtain ⟨start, names⟩ := target
  have hlonger := utf8ByteSize_stagingName (Pathname.name ⟨start, names⟩) number
  unfold refuses at h
  rw [isDots_stagingName, Bool.or_eq_false_iff, Bool.not_false, Bool.true_and] at h
  obtain ⟨hpath, hname⟩ := h
  unfold pathTooLong at hpath
  rw [decide_eq_false_iff_not, Pathname.utf8ByteSize_render] at hpath
  unfold isTooLong at hname
  rw [decide_eq_false_iff_not] at hname
  rcases List.eq_nil_or_concat names with rfl | ⟨outer, last, rfl⟩
  · unfold exceeds pathTooLong
    simp only [List.getLast?_nil, decide_eq_false_iff_not]
    rw [Pathname.utf8ByteSize_render]
    simp only [Pathname.width_nil] at hpath ⊢
    omega
  · rw [List.concat_eq_append] at hlonger hpath hname ⊢
    have hlast : Pathname.name ⟨start, outer ++ [last]⟩ = last := by
      unfold Pathname.name
      simp
    rw [hlast] at hlonger hpath hname
    -- The staging file is in the same directory and has the longer name.
    have hwidth := Pathname.width_concat outer last (stagingName last number)
    unfold exceeds refuses pathTooLong isTooLong
    simp only [List.getLast?_concat, List.dropLast_concat, Bool.or_eq_false_iff,
      Bool.and_eq_false_iff, decide_eq_false_iff_not] at hpath ⊢
    rw [Pathname.utf8ByteSize_render]
    refine ⟨?_, .inr ?_⟩
    · simp only at hpath ⊢
      omega
    · omega

theorem room_of_fits
    (hleads : tree.Leads target.start target.names.dropLast directory)
    (hfits : refuses target.start target.names.dropLast (freshStaging tree target) = false) :
    Room tree target directory (freshStaging tree target)
      ∧ exceeds target = false ∧ target.names.getLast? ≠ some (freshStaging tree target) := by
  obtain ⟨number, hname, hfree, -⟩ := freshStaging_spec tree target
  refine ⟨⟨hleads, hname ▸ hfree, ?_, hfits⟩, ?_, ?_⟩
  · rw [hname]
    exact isDots_stagingName _ _
  · rw [hname] at hfits
    exact exceeds_of_staging hfits
  · intro hlast
    have hlonger := utf8ByteSize_stagingName target.name number
    have hsame : target.name = freshStaging tree target := by
      unfold Pathname.name
      rw [List.getLastD_eq_getLast?, hlast, Option.getD_some]
    rw [← hname, ← hsame] at hlonger
    omega

def directories (store : Store) (name : String) (tree : Tree) : Except SystemError Unit × Tree :=
  tree.makeDirectories (objectPathname store name).start
    (objectPathname store name).names.dropLast.reverse

theorem directories_grows (store : Store) (name : String) (tree : Tree) :
    tree.Grows (directories store name tree).2 :=
  makeDirectories_grows tree _ _

theorem directories_leads (h : (directories store name tree).1 = .ok ()) :
    ∃ directory, (directories store name tree).2.Leads (objectPathname store name).start
      (objectPathname store name).names.dropLast directory := by
  have hleads := makeDirectories_leads h
  rw [List.reverse_reverse] at hleads
  exact hleads

theorem directories_extends (hsound : tree.Sound) (store : Store) (name : String) :
    tree.Extends (directories store name tree).2 (OnWayTo store name) := by
  have hextends := makeDirectories_extends hsound (objectPathname store name).start
    (objectPathname store name).names.dropLast.reverse
  have hstart := startOf_parent tree (start_objectPathname store name)
  rw [List.reverse_reverse, hstart] at hextends
  exact hextends

theorem makeParent_yields (p : Pathname) (world : World) :
    (makeDirectories p.parent).Yields world
      ((world.tree.makeDirectories p.start p.names.dropLast.reverse).1.mapError .ofSystem)
      (world.withTree (world.tree.makeDirectories p.start p.names.dropLast.reverse).2) :=
  makeDirectories_yields p.parent world

theorem write_eq (store : Store) (name : String) (source : Source) (overwrite : Bool) :
    write store name source overwrite
      =
    do
      let target ← objectPath store name
      makeDirectories target.parent
      let world ← get
      let written ← stage store (store.key name) source overwrite
        (beside target (freshStaging world.tree target)) target
      if written then note .debug .files ("Stored object: backend=filesystem name=" ++ name)
      return written := rfl

def stagingOf (store : Store) (name : String) (tree : Tree) : String :=
  freshStaging (directories store name tree).2 (objectPathname store name)

def prepare (store : Store) (name : String) : Action (Pathname × Pathname) := do
  let target ← objectPath store name
  makeDirectories target.parent
  let world ← get
  return (target, beside target (freshStaging world.tree target))

theorem write_eq_prepare (store : Store) (name : String) (source : Source) (overwrite : Bool) :
    write store name source overwrite
      =
    do
      let (target, staging) ← prepare store name
      let written ← stage store (store.key name) source overwrite staging target
      if written then note .debug .files ("Stored object: backend=filesystem name=" ++ name)
      return written := by
  unfold prepare
  simp only [bind_assoc, pure_bind]
  exact write_eq store name source overwrite

theorem prepare_yields_of_outside (h : checkedPath store name world.tree = .error failure) :
    (prepare store name).Yields world (.error failure) world := by
  have hchecked := objectPath_yields_checkedPath store name world
  rw [h] at hchecked
  exact hchecked.bind_error

theorem prepare_yields_of_error {error : SystemError}
    (hpath : checkedPath store name world.tree = .ok (objectPathname store name))
    (hmade : (directories store name world.tree).1 = .error error) :
    (prepare store name).Yields world (.error (.ofSystem error))
      (world.withTree (directories store name world.tree).2) := by
  have hchecked := objectPath_yields_checkedPath store name world
  have hparent := makeParent_yields (objectPathname store name) world
  unfold directories at hmade
  rw [hpath] at hchecked
  rw [hmade] at hparent
  exact hchecked.bind hparent.bind_error

theorem prepare_yields_of_ok
    (hpath : checkedPath store name world.tree = .ok (objectPathname store name))
    (hmade : (directories store name world.tree).1 = .ok ()) :
    (prepare store name).Yields world
      (.ok (objectPathname store name,
        beside (objectPathname store name) (stagingOf store name world.tree)))
      (world.withTree (directories store name world.tree).2) := by
  have hchecked := objectPath_yields_checkedPath store name world
  have hparent := makeParent_yields (objectPathname store name) world
  unfold directories at hmade
  rw [hpath] at hchecked
  rw [hmade] at hparent
  refine hchecked.bind (hparent.bind (Yields.get_bind fun records => ?_))
  exact .pure _ _

theorem write_yields_of_stage {result : Except Failure Bool}
    (hpath : checkedPath store name world.tree = .ok (objectPathname store name))
    (hmade : (directories store name world.tree).1 = .ok ())
    (h : (stage store (store.key name) source overwrite
      (beside (objectPathname store name) (stagingOf store name world.tree))
      (objectPathname store name)).Yields (world.withTree (directories store name world.tree).2)
        result (world.withTree tree')) :
    (write store name source overwrite).Yields world result (world.withTree tree') := by
  rw [write_eq_prepare]
  exact (prepare_yields_of_ok hpath hmade).bind (noted_yields h)

theorem stat_objectPathname_iff (hsound : tree.Sound) {node : Node} :
    tree.stat (objectPathname store name) = .ok node
      ↔ (objectPathname store name).Fits ∧ tree.get? (objectPlace store name) = some node :=
  stat_eq_ok_iff_of_settled hsound (startOf_objectPathname tree store name)
    (settled_objectPathname store name)

theorem get?_objectPlace (hsound : tree.Sound) {node : Node}
    (h : tree.stat (objectPathname store name) = .ok node) :
    tree.get? (objectPlace store name) = some node :=
  ((stat_objectPathname_iff hsound).1 h).2

theorem nothing_of_none (hsound : tree.Sound) (hfits : (objectPathname store name).Fits)
    (hnone : tree.get? (objectPlace store name) = none) :
    (tree.stat (objectPathname store name) = .error .noEntry
        ∨ tree.stat (objectPathname store name) = .error .notDirectory)
      ∧ (tree.unlink (objectPathname store name) = .error .noEntry
        ∨ tree.unlink (objectPathname store name) = .error .notDirectory) :=
  ⟨stat_of_none hsound (startOf_objectPathname tree store name)
      (settled_objectPathname store name) hfits hnone,
    unlink_of_none hsound (startOf_objectPathname tree store name)
      (settled_objectPathname store name) hfits hnone⟩

theorem get?_of_not_file (hsound : tree.Sound) {place : Place}
    (hfile : ∀ raw, tree.get? place ≠ some (.file raw)) :
    tree.get? place = some .directory ∨ tree.get? place = none := by
  cases hget : tree.get? place with
  | none => exact .inr rfl
  | some node =>
    cases node with
    | directory => exact .inl rfl
    | file raw => exact absurd hget (hfile raw)
    | link target => exact absurd hget (hsound.linkless place target)

theorem fillFile_yields_of_refuses
    (hleads : world.tree.Leads target.start target.names.dropLast directory)
    (h : refuses target.start target.names.dropLast (freshStaging world.tree target) = true)
    (source : Source) (scheme : Codec.Scheme) :
    ∃ failure, (fillFile (beside target (freshStaging world.tree target)) source scheme).Yields
      world (.error failure) world := by
  obtain ⟨number, hname, hfree, -⟩ := freshStaging_spec world.tree target
  rw [hname] at h hfree ⊢
  have hwrite : world.tree.writeFile (beside target (stagingName target.name number)) .empty
      = .error .nameTooLong := by
    have hfile := hleads.writeFile_eq (by rw [hfree]; simp) (isDots_stagingName _ number) .empty
    rw [h, if_pos rfl] at hfile
    exact hfile
  unfold fillFile
  exact ⟨_, (change_yields_of_error hwrite).bind_error⟩

theorem stage_yields_of_refuses
    (hleads : world.tree.Leads target.start target.names.dropLast directory)
    (h : refuses target.start target.names.dropLast (freshStaging world.tree target) = true)
    (store : Store) (key : String) (source : Source) (overwrite : Bool) :
    ∃ failure, (stage store key source overwrite (beside target (freshStaging world.tree target))
      target).Yields world (.error failure) world := by
  obtain ⟨number, -, hfree, -⟩ := freshStaging_spec world.tree target
  obtain ⟨failure, hfill⟩ := fillFile_yields_of_refuses hleads h source store.compression
  have hstage : (stage store key source overwrite
      (beside target (freshStaging world.tree target)) target).Yields world (.error failure)
      (world.withTree (discarded world.tree (beside target (freshStaging world.tree target)))) :=
    hfill.bind_error.andFinally (discard_yields _ world)
  rw [discarded_of_free hfree] at hstage
  exact ⟨failure, hstage⟩

/-- How far a write gets, over links. -/
inductive Tried (store : Store) (name : String) (source : Source) (overwrite : Bool) (tree : Tree) :
    Except Failure Bool → Tree → Prop where
  | outside (failure : Failure) (hpath : checkedPath store name tree = .error failure) :
      Tried store name source overwrite tree (.error failure) tree
  | noDirectory (error : SystemError)
      (hpath : checkedPath store name tree = .ok (objectPathname store name))
      (hmade : (directories store name tree).1 = .error error) :
      Tried store name source overwrite tree (.error (.ofSystem error))
        (directories store name tree).2
  | tooLong (failure : Failure)
      (hpath : checkedPath store name tree = .ok (objectPathname store name))
      (hlong : refuses (objectPathname store name).start
        (objectPathname store name).names.dropLast (stagingOf store name tree) = true) :
      Tried store name source overwrite tree (.error failure) (directories store name tree).2
  | staged (directory : Place) (result : Except Failure Bool) (tree' : Tree)
      (hpath : checkedPath store name tree = .ok (objectPathname store name))
      (hmade : (directories store name tree).1 = .ok ())
      (hshort : refuses (objectPathname store name).start
        (objectPathname store name).names.dropLast (stagingOf store name tree) = false)
      (hleads : (directories store name tree).2.Leads (objectPathname store name).start
        (objectPathname store name).names.dropLast directory)
      (hfits : exceeds (objectPathname store name) = false)
      (hstaged : Staged store source overwrite (directories store name tree).2
        (entryOf? directory (objectPathname store name)) result tree') :
      Tried store name source overwrite tree result tree'

theorem write_tries (store : Store) (name : String) (source : Source) (overwrite : Bool)
    (world : World) :
    ∃ result tree', (write store name source overwrite).Yields world result (world.withTree tree')
      ∧ Tried store name source overwrite world.tree result tree' := by
  rcases checkedPath_cases store name world.tree with hpath | ⟨failure, hpath⟩
  · cases hdone : (directories store name world.tree).1 with
    | error error =>
      have hfails : (write store name source overwrite).Yields world
          (.error (.ofSystem error)) (world.withTree (directories store name world.tree).2) := by
        rw [write_eq_prepare]
        exact (prepare_yields_of_error hpath hdone).bind_error
      exact ⟨_, _, hfails, .noDirectory error hpath hdone⟩
    | ok done =>
      obtain ⟨directory, hleads⟩ := directories_leads hdone
      cases hfits : refuses (objectPathname store name).start
          (objectPathname store name).names.dropLast (stagingOf store name world.tree) with
      | true =>
        have hleads' : (world.withTree (directories store name world.tree).2).tree.Leads
            (objectPathname store name).start (objectPathname store name).names.dropLast
            directory := hleads
        obtain ⟨failure, hstage⟩ := stage_yields_of_refuses hleads' hfits store (store.key name)
          source overwrite
        exact ⟨_, _, write_yields_of_stage hpath hdone hstage, .tooLong failure hpath hfits⟩
      | false =>
        obtain ⟨hroom, hexceeds, hother⟩ := room_of_fits hleads hfits
        have hroom' : Room (world.withTree (directories store name world.tree).2).tree
            (objectPathname store name) directory (stagingOf store name world.tree) := hroom
        obtain ⟨result, tree', hstage, hstaged⟩ := stage_cases hroom' store (store.key name) source
          overwrite hexceeds hother
        exact ⟨result, tree', write_yields_of_stage hpath hdone hstage,
          .staged directory result tree' hpath hdone hfits hleads hexceeds hstaged⟩
  · have hfails : (write store name source overwrite).Yields world (.error failure) world := by
      rw [write_eq_prepare]
      exact (prepare_yields_of_outside hpath).bind_error
    exact ⟨_, world.tree, hfails, .outside failure hpath⟩

inductive Obstacle (store : Store) (name : String) (source : Source) (overwrite : Bool)
    (tree tree' : Tree) (failure : Failure) : Prop where
  | outside (h : ¬Within store tree name)
  | noDirectory (h : (directories store name tree).1 ≠ .ok ())
  | tooLong (h : refuses (objectPathname store name).start
      (objectPathname store name).names.dropLast (stagingOf store name tree) = true)
  | bySource (h : source.content = .error failure)
  | directory (hreplaces : overwrite = true)
      (h : tree'.stat (objectPathname store name) = .ok .directory)

inductive Wrote (store : Store) (name : String) (source : Source) (overwrite : Bool) (tree : Tree) :
    Except Failure Bool → Tree → Prop where
  | failed (failure : Failure) (tree' : Tree)
      (hextends : tree.Extends tree' (OnWayTo store name))
      (hwhy : Obstacle store name source overwrite tree tree' failure) :
      Wrote store name source overwrite tree (.error failure) tree'
  | skipped (body : ByteArray) (tree' : Tree) (node : Node) (hcontent : source.content = .ok body)
      (hextends : tree.Extends tree' (OnWayTo store name))
      (hwithin : Within store tree name) (hkeeps : overwrite = false)
      (hstat : tree'.stat (objectPathname store name) = .ok node) :
      Wrote store name source overwrite tree (.ok false) tree'
  | stored (body : ByteArray) (grown tree' : Tree)
      (hextends : tree.Extends grown (OnWayTo store name)) (hwithin : Within store tree name)
      (hcontent : source.content = .ok body)
      (hfile : grown.hasDirectory (objectPlace store name) = false)
      (hnew : overwrite = false → grown.get? (objectPlace store name) = none)
      (hholds : Holds grown (objectPlace store name) (store.raw source) tree')
      (hstat : tree'.stat (objectPathname store name) = .ok (.file (store.raw source))) :
      Wrote store name source overwrite tree (.ok true) tree'

theorem Wrote.of_staged {grown : Tree} (hwithin : Within store tree name)
    (hextends : tree.Extends grown (OnWayTo store name))
    (hleads : grown.Leads (objectPathname store name).start
      (objectPathname store name).names.dropLast directory)
    (hfits : exceeds (objectPathname store name) = false) {result : Except Failure Bool}
    (h : Staged store source overwrite grown (entryOf? directory (objectPathname store name)) result
      tree') :
    Wrote store name source overwrite tree result tree' := by
  have hsound := hextends.sound
  cases h with
  | failed failure _ hsame hwhy =>
    have hleads' := hsame.leads hleads
    refine .failed failure tree' (hextends.of_same hsame) ?_
    rcases hwhy with hcontent | ⟨hreplaces, hdir⟩
    · exact .bySource hcontent
    · apply Obstacle.directory hreplaces
      rw [hleads'.stat_pathname (hsame.sound hsound) hfits]
      cases hentry : entryOf? directory (objectPathname store name) with
      | none => rfl
      | some place =>
        have hplace := hdir place hentry
        rw [← hsame.hasDirectory_eq, hasDirectory_iff] at hplace
        dsimp only
        rw [hplace]
  | skipped body _ hcontent hsame hkeeps hfound =>
    have hleads' := hsame.leads hleads
    have hstat := hleads'.stat_pathname (hsame.sound hsound) hfits
    cases hentry : entryOf? directory (objectPathname store name) with
    | none =>
      rw [hentry] at hstat
      exact .skipped body tree' .directory hcontent (hextends.of_same hsame) hwithin hkeeps hstat
    | some place =>
      rw [hentry] at hstat
      have hplace := hfound place hentry
      rw [← hsame.get?_eq] at hplace
      obtain ⟨node, hnode⟩ := Option.ne_none_iff_exists'.1 hplace
      dsimp only at hstat
      rw [hnode] at hstat
      exact .skipped body tree' node hcontent (hextends.of_same hsame) hwithin hkeeps hstat
  | stored body place _ hcontent hentry hfile hnew hgains =>
    obtain ⟨last, -, rfl⟩ := exists_of_entryOf? hentry
    have hholds := hgains.holds hsound hleads.hasDirectory hfile
    have hplace : last :: directory = objectPlace store name := by
      have hfoldl := hleads.entryOf?_eq_foldl hsound hentry
      rw [startOf_objectPathname] at hfoldl
      unfold objectPlace
      exact hfoldl
    have hleads' := hholds.leads hsound hfile hleads
    have hstat := hleads'.stat_pathname hholds.sound hfits
    rw [hentry] at hstat
    dsimp only at hstat
    rw [hholds.at_eq] at hstat
    rw [hplace] at hfile hnew hholds
    exact .stored body grown tree' hextends hwithin hcontent hfile hnew hholds hstat

theorem Wrote.of_tried (hsound : tree.Sound) {result : Except Failure Bool}
    (h : Tried store name source overwrite tree result tree') :
    Wrote store name source overwrite tree result tree' := by
  have hextends := directories_extends hsound store name
  cases h with
  | outside failure hpath =>
    refine .failed failure _ (.refl hsound _) (.outside fun hinside => ?_)
    rw [checkedPath_of_within hsound hinside] at hpath
    cases hpath
  | noDirectory error hpath hmade =>
    refine .failed _ _ hextends (.noDirectory ?_)
    rw [hmade]
    simp
  | tooLong failure hpath hlong => exact .failed _ _ hextends (.tooLong hlong)
  | staged directory _ _ hpath hmade hshort hleads hfits hstaged =>
    have hwithin : Within store tree name := by
      apply Classical.byContradiction
      intro hnot
      obtain ⟨cause, hfailure⟩ := checkedPath_of_not_within hsound hnot
      rw [hpath] at hfailure
      cases hfailure
    exact .of_staged hwithin hextends hleads hfits hstaged

theorem write_cases (hsound : world.tree.Sound) (store : Store) (name : String) (source : Source)
    (overwrite : Bool) :
    ∃ result tree', (write store name source overwrite).Yields world result (world.withTree tree')
      ∧ Wrote store name source overwrite world.tree result tree' := by
  obtain ⟨result, tree', hwrite, htried⟩ := write_tries store name source overwrite world
  exact ⟨result, tree', hwrite, .of_tried hsound htried⟩

theorem write_fails_of_tooLong (hsound : world.tree.Sound)
    (hlong : pathTooLong (objectPathname store name) = true) (source : Source) (overwrite : Bool) :
    ∃ failure tree', (write store name source overwrite).Yields world (.error failure)
      (world.withTree tree') := by
  have hstat : ∀ {tree : Tree} {node : Node}, tree.Sound →
      tree.stat (objectPathname store name) ≠ .ok node := by
    intro tree node hsound hstat
    have hfits := ((stat_objectPathname_iff hsound).1 hstat).1
    rw [hfits.short] at hlong
    cases hlong
  obtain ⟨result, tree', hwrite, hwrote⟩ := write_cases hsound store name source overwrite
  cases hwrote with
  | failed failure _ hextends hwhy => exact ⟨failure, tree', hwrite⟩
  | skipped body _ node hcontent hextends hwithin hkeeps hthere =>
    exact absurd hthere (hstat hextends.sound)
  | stored body grown _ hextends hwithin hcontent hfile hnew hholds hthere =>
    exact absurd hthere (hstat hholds.sound)

def existence (tree : Tree) (p : Pathname) : Except Failure Bool :=
  match tree.stat p with
  | .ok (.file _) => .ok true
  | .ok _ => .ok false
  | .error .noEntry | .error .notDirectory => .ok false
  | .error code => .error (.ofSystem (errorAt p code))

theorem existence_eq_ok_true_iff {p : Pathname} :
    existence tree p = .ok true ↔ ∃ raw, tree.stat p = .ok (.file raw) := by
  unfold existence
  cases tree.stat p with
  | ok node => cases node <;> simp
  | error code => cases code <;> simp

theorem existence_of_not_file (hsound : tree.Sound) (hfits : (objectPathname store name).Fits)
    (hfile : ∀ raw, tree.get? (objectPlace store name) ≠ some (.file raw)) :
    existence tree (objectPathname store name) = .ok false := by
  unfold existence
  rcases get?_of_not_file hsound hfile with hget | hget
  · rw [(stat_objectPathname_iff hsound).2 ⟨hfits, hget⟩]
  · rcases (nothing_of_none hsound hfits hget).1 with hstat | hstat
    · rw [hstat]
    · rw [hstat]

theorem contains_yields_of_path {p : Pathname}
    (hpath : (objectPath store name).Yields world (.ok p) world) :
    (contains store name).Yields world (existence world.tree p) world := by
  unfold contains existence
  refine hpath.bind (Yields.get_bind fun records => ?_)
  rw [World.withRecords_tree]
  cases world.tree.stat p with
  | ok node =>
    cases node with
    | file bytes => exact .pure true world
    | directory => exact .pure false world
    | link target => exact .pure false world
  | error code =>
    cases code with
    | noEntry => exact .pure false world
    | notDirectory => exact .pure false world
    | _ => exact .throw _ world

theorem contains_yields_of_within (hsound : world.tree.Sound)
    (hwithin : Within store world.tree name) :
    (contains store name).Yields world (existence world.tree (objectPathname store name)) world :=
  contains_yields_of_path (objectPath_yields hsound hwithin)

theorem contains_yields_of_not_within (hsound : world.tree.Sound)
    (h : ¬Within store world.tree name) :
    ∃ failure, (contains store name).Yields world (.error failure) world := by
  obtain ⟨cause, hpath⟩ := objectPath_yields_of_not_within hsound h
  exact ⟨_, hpath.bind_error⟩

theorem openRaw_yields_of_path {p : Pathname}
    (hpath : (objectPath store name).Yields world (.ok p) world) :
    (openRaw store name).Yields world
      ((world.tree.content p).mapError (objectFailure store name p)) world := by
  unfold openRaw
  refine hpath.bind ((note_yields _ _ _ world).bind (Yields.get_bind fun records => ?_))
  rw [World.withRecords_tree]
  cases world.tree.content p with
  | ok bytes => exact .pure bytes world
  | error code => exact .throw _ world

theorem openRaw_yields_of_stat (hsound : world.tree.Sound) (hwithin : Within store world.tree name)
    {raw : ByteArray} (h : world.tree.stat (objectPathname store name) = .ok (.file raw)) :
    (openRaw store name).Yields world (.ok raw) world := by
  have hcontent : world.tree.content (objectPathname store name) = .ok raw := by
    unfold content
    rw [h]
    rfl
  have hopen := openRaw_yields_of_path (objectPath_yields hsound hwithin)
  rw [hcontent] at hopen
  exact hopen

theorem openRaw_yields_of_not_file (hsound : world.tree.Sound)
    (hwithin : Within store world.tree name) (hfits : (objectPathname store name).Fits)
    (hfile : ∀ raw, world.tree.get? (objectPlace store name) ≠ some (.file raw)) :
    ∃ cause, (openRaw store name).Yields world (.error (store.notFound name cause)) world := by
  have hthrow : ∀ code, isAbsence code = true →
      world.tree.content (objectPathname store name) = .error code →
      ∃ cause, (openRaw store name).Yields world (.error (store.notFound name cause)) world := by
    intro code habsence hcontent
    have hopen := openRaw_yields_of_path (objectPath_yields hsound hwithin)
    rw [hcontent] at hopen
    unfold Except.mapError objectFailure at hopen
    dsimp only at hopen
    rw [habsence, if_pos rfl] at hopen
    exact ⟨_, hopen⟩
  rcases get?_of_not_file hsound hfile with hget | hget
  · apply hthrow .isDirectory rfl
    unfold content
    rw [(stat_objectPathname_iff hsound).2 ⟨hfits, hget⟩]
    rfl
  · rcases (nothing_of_none hsound hfits hget).1 with hstat | hstat
    · apply hthrow .noEntry rfl
      unfold content
      rw [hstat]
      rfl
    · apply hthrow .notDirectory rfl
      unfold content
      rw [hstat]
      rfl

section Delete

variable {p : Pathname} {raw : ByteArray} {code : SystemErrorCode}

def remove (store : Store) (name : String) (p : Pathname) : Action Unit := do
  let world ← get
  match world.tree.isDirectory p with
  | .error code => fail (errorAt p code)
  | .ok true => throw (store.notFound name)
  | .ok false =>
    match world.tree.unlink p with
    | .error code => throw (objectFailure store name p code)
    | .ok tree =>
      set { world with tree }
      note .debug .files ("Deleted object: backend=filesystem name=" ++ name)

theorem delete_eq (store : Store) (name : String) :
    delete store name = (objectPath store name >>= remove store name) := rfl

theorem isDirectory_of_file (h : tree.stat p = .ok (.file raw)) : tree.isDirectory p = .ok false := by
  unfold isDirectory
  rw [h]

theorem remove_yields_of_unlink (hdir : world.tree.isDirectory p = .ok false)
    (h : world.tree.unlink p = .ok tree') (store : Store) (name : String) :
    (remove store name p).Yields world (.ok ()) (world.withTree tree') := by
  unfold remove
  refine Yields.get_bind fun records => ?_
  rw [World.withRecords_tree, hdir]
  dsimp only
  rw [h]
  refine (setTree_yields _ records world).bind ?_
  exact note_yields _ _ _ _

theorem remove_yields_of_error (hdir : world.tree.isDirectory p = .ok false)
    (h : world.tree.unlink p = .error code) (store : Store) (name : String) :
    (remove store name p).Yields world (.error (objectFailure store name p code)) world := by
  unfold remove
  refine Yields.get_bind fun records => ?_
  rw [World.withRecords_tree, hdir]
  dsimp only
  rw [h]
  exact .throw _ world

theorem remove_yields_of_unknown (hdir : world.tree.isDirectory p = .error code) (store : Store)
    (name : String) :
    (remove store name p).Yields world (.error (.ofSystem (errorAt p code))) world := by
  unfold remove
  refine Yields.get_bind fun records => ?_
  rw [World.withRecords_tree, hdir]
  exact .throw _ world

theorem remove_yields_of_directory (hdir : world.tree.isDirectory p = .ok true) (store : Store)
    (name : String) : (remove store name p).Yields world (.error (store.notFound name)) world := by
  unfold remove
  refine Yields.get_bind fun records => ?_
  rw [World.withRecords_tree, hdir]
  exact .throw _ world

theorem remove_yields_of_not_file (h : ∀ tree', world.tree.unlink p ≠ .ok tree') (store : Store)
    (name : String) : ∃ failure, (remove store name p).Yields world (.error failure) world := by
  cases hdir : world.tree.isDirectory p with
  | error code => exact ⟨_, remove_yields_of_unknown hdir store name⟩
  | ok isDir =>
    cases isDir with
    | true => exact ⟨_, remove_yields_of_directory hdir store name⟩
    | false =>
      cases hunlink : world.tree.unlink p with
      | error code => exact ⟨_, remove_yields_of_error hdir hunlink store name⟩
      | ok tree' => exact absurd hunlink (h tree')

theorem delete_yields_of_stat (hsound : world.tree.Sound) (hwithin : Within store world.tree name)
    (h : world.tree.stat (objectPathname store name) = .ok (.file raw)) :
    (delete store name).Yields world (.ok ())
      (world.withTree (world.tree.erase (objectPlace store name))) := by
  have hunlink := unlink_of_stat_file hsound (startOf_objectPathname _ store name) h
  rw [delete_eq]
  refine (objectPath_yields hsound hwithin).bind ?_
  exact remove_yields_of_unlink (isDirectory_of_file h) hunlink store name

theorem delete_yields_of_not_file (hsound : world.tree.Sound)
    (hwithin : Within store world.tree name) (hfits : (objectPathname store name).Fits)
    (hfile : ∀ raw, world.tree.get? (objectPlace store name) ≠ some (.file raw)) :
    ∃ cause, (delete store name).Yields world (.error (store.notFound name cause)) world := by
  have hpath := objectPath_yields hsound hwithin
  rw [delete_eq]
  rcases get?_of_not_file hsound hfile with hget | hget
  · have hdir : world.tree.isDirectory (objectPathname store name) = .ok true := by
      unfold isDirectory
      rw [(stat_objectPathname_iff hsound).2 ⟨hfits, hget⟩]
    exact ⟨_, hpath.bind (remove_yields_of_directory hdir store name)⟩
  · obtain ⟨hstat, hunlink⟩ := nothing_of_none hsound hfits hget
    have hdir : world.tree.isDirectory (objectPathname store name) = .ok false := by
      unfold isDirectory
      rcases hstat with hstat | hstat
      · rw [hstat]
      · rw [hstat]
    rcases hunlink with hnone | hnone
    · exact ⟨_, hpath.bind (remove_yields_of_error hdir hnone store name)⟩
    · exact ⟨_, hpath.bind (remove_yields_of_error hdir hnone store name)⟩

theorem delete_cases (hsound : world.tree.Sound) (store : Store) (name : String) :
    (∃ failure, (delete store name).Yields world (.error failure) world)
      ∨ (delete store name).Yields world (.ok ())
          (world.withTree (world.tree.erase (objectPlace store name)))
        ∧ ∃ raw, world.tree.get? (objectPlace store name) = some (.file raw) := by
  rw [delete_eq]
  by_cases hwithin : Within store world.tree name
  · have hpath := objectPath_yields hsound hwithin
    by_cases hfile : ∃ raw, world.tree.stat (objectPathname store name) = .ok (.file raw)
    · obtain ⟨raw, hstat⟩ := hfile
      exact .inr ⟨delete_yields_of_stat hsound hwithin hstat, raw, get?_objectPlace hsound hstat⟩
    · have hunlink : ∀ tree', world.tree.unlink (objectPathname store name) ≠ .ok tree' := by
        intro tree' hgone
        obtain ⟨raw, hstat, -⟩ := unlink_ok hsound hgone
        exact hfile ⟨raw, hstat⟩
      obtain ⟨failure, hremove⟩ := remove_yields_of_not_file hunlink store name
      exact .inl ⟨failure, hpath.bind hremove⟩
  · obtain ⟨cause, hpath⟩ := objectPath_yields_of_not_within hsound hwithin
    exact .inl ⟨_, hpath.bind_error⟩

end Delete

end Depot.Store.Files
