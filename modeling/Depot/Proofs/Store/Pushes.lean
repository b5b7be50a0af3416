import Depot.Proofs.Store.Contents
import Depot.Proofs.Store.Storable

/-!
This module contains the theory of pushing local files: when the body of a file that is pushed can
be read from the store once the file is gone.
-/

namespace Depot.Store

open Depot.Action

variable {store : Store} {name path : String} {told : Option String} {world world₁ : World}
  {body raw : ByteArray} {failure : Failure} {tree : Files.Tree}

structure LocalFile (world : World) (path : String) (body : ByteArray) : Prop where
  holdsZero : (Files.Pathname.parse path).holdsZero = false
  stat_eq : world.tree.stat (Files.Pathname.parse path) = .ok (.file body)

def localPlace (world : World) (path : String) : Files.Place :=
  (Files.Pathname.parse path).names.foldl Files.Tree.enter
    (world.tree.startOf (Files.Pathname.parse path))

theorem LocalFile.get?_eq (hsound : world.tree.Sound) (h : LocalFile world path body) :
    world.tree.get? (localPlace world path) = some (.file body) :=
  Files.Tree.get?_of_stat hsound h.stat_eq

theorem LocalFile.of_spares (hsound : world.tree.Sound) (h : LocalFile world path body)
    (hspares : world.Spares world₁) : LocalFile world₁ path body := by
  refine ⟨h.holdsZero, ?_⟩
  apply Files.Tree.stat_mono hsound hspares.sound hspares.current_eq hspares.directory h.stat_eq
  exact (hspares.file_iff _ body).2 (h.get?_eq hsound)

theorem localFile_of_get? (hsound : world.tree.Sound)
    (hrooted : (Files.Pathname.parse path).start ≠ .current)
    (hzero : (Files.Pathname.parse path).holdsZero = false)
    (hplain : ∀ name ∈ (Files.Pathname.parse path).names, Files.Tree.isDots name = false)
    (hfits : (Files.Pathname.parse path).Fits)
    (hget : world.tree.get? (Files.Pathname.parse path).names.reverse = some (.file body)) :
    LocalFile world path body := by
  refine ⟨hzero, ?_⟩
  have hroot := Files.startOf_of_ne_current world.tree hrooted
  rw [Files.Tree.stat_eq_ok_iff_of_settled hsound hroot ⟨0, _, rfl, hplain⟩]
  rw [Files.Tree.foldl_enter_plain hplain, List.append_nil]
  exact ⟨hfits, hget⟩

theorem localPlace_congr (hcurrent : world₁.tree.current = world.tree.current) (path : String) :
    localPlace world₁ path = localPlace world path := by
  unfold localPlace
  rw [Files.Tree.startOf_congr hcurrent]

section Steps

variable {result : Except Failure Bool} {code : SystemErrorCode}

theorem readLocal_yields (h : LocalFile world path body) :
    (readLocal (Files.Pathname.parse path)).Yields world (.ok body) world := by
  have hcontent : world.tree.content (Files.Pathname.parse path) = .ok body := by
    unfold Files.Tree.content
    rw [h.stat_eq]
    rfl
  unfold readLocal
  rw [h.holdsZero, if_neg Bool.false_ne_true]
  refine Yields.get_bind fun records => ?_
  rw [World.withRecords_tree, hcontent]
  exact .pure body world

theorem push_yields_of_error (hlocal : LocalFile world path body)
    (h : (store.write name (.ofBytes body)).Yields world (.error failure) world₁) :
    (store.push path name told).Yields world (.error failure) world₁ := by
  unfold push tracedBy
  apply traced_yields
  exact (readLocal_yields hlocal).bind h.bind_error

theorem push_yields_of_unlink {written : Bool} (hlocal : LocalFile world path body)
    (h : (store.write name (.ofBytes body)).Yields world (.ok written) world₁)
    (hunlink : world₁.tree.unlink (Files.Pathname.parse path) = .ok tree) :
    (store.push path name told).Yields world (.ok ()) (world₁.withTree tree) := by
  unfold push tracedBy
  apply traced_yields
  refine (readLocal_yields hlocal).bind (h.bind ?_)
  exact (Files.change_yields_of_ok hunlink).bind (note_yields _ _ _ _)

theorem push_yields_of_unlink_error {written : Bool} (hlocal : LocalFile world path body)
    (h : (store.write name (.ofBytes body)).Yields world (.ok written) world₁)
    (hunlink : world₁.tree.unlink (Files.Pathname.parse path) = .error code) :
    ∃ failure, (store.push path name told).Yields world (.error failure) world₁ := by
  refine ⟨.ofSystem (Files.errorAt (Files.Pathname.parse path) code), ?_⟩
  unfold push tracedBy
  apply traced_yields
  refine (readLocal_yields hlocal).bind (h.bind ?_)
  exact (Files.change_yields_of_error hunlink).bind_error

end Steps

theorem has_erase_iff (hsound : world.tree.Sound) {place : Files.Place}
    (hfile : world.tree.get? place = some (.file body)) :
    store.Has (world.withTree (world.tree.erase place)) name raw
      ↔ store.Has world name raw
        ∧ (store.backend = .files → Files.objectPlace store name ≠ place) := by
  by_cases hbackend : store.backend = .files
  · have hgone := (fewer_erase hsound hfile).sound
    have hne : place ≠ [] := by
      rintro rfl
      cases hfile
    rw [has_files_iff_get? hsound hbackend, has_files_iff_get? hgone hbackend, World.withTree_tree]
    constructor
    · rintro ⟨hwithin, hfits, hget⟩
      have hother : Files.objectPlace store name ≠ place := by
        rintro rfl
        rw [Files.Tree.get?_erase_self _ hne] at hget
        cases hget
      rw [Files.Tree.get?_erase_of_ne _ hother] at hget
      exact ⟨⟨hwithin.congr rfl, hfits, hget⟩, fun _ => hother⟩
    · rintro ⟨⟨hwithin, hfits, hget⟩, hother⟩
      refine ⟨hwithin.congr rfl, hfits, ?_⟩
      rw [Files.Tree.get?_erase_of_ne _ (hother hbackend)]
      exact hget
  · rw [has_bucket_iff hbackend, has_bucket_iff hbackend]
    simp only [hbackend, false_implies, and_true]
    rfl

/--
Whether the body of a file is what can be read under a name, unless there was an object that is to
be kept, which then can be read as before.
-/
structure Arrived (store : Store) (name : String) (body : ByteArray) (world world' : World) :
    Prop where
  contains_eq : ((store.contains name).perform world'.calm).1 = .ok true
  read_new : ((store.contains name).perform world.calm).1 ≠ .ok true ∨ store.overwrite = true →
    ((store.readBytes name).perform world'.calm).1 = .ok body
  read_old : ((store.contains name).perform world.calm).1 = .ok true → store.overwrite = false →
    ((store.readBytes name).perform world'.calm).1 = ((store.readBytes name).perform world.calm).1

def Lost (store : Store) (name path : String) (world world' : World) : Prop :=
  store.backend = .files
    ∧ (world'.tree.stat (Files.objectPathname store name) = .ok .directory
      ∨ Files.objectPlace store name = localPlace world path)

section Arrival

variable {world' : World}

theorem not_lost_of_arrived (hsound : world₁.tree.Sound)
    (hfile : world₁.tree.get? (localPlace world path) = some (.file raw))
    (h : Arrived store name body world
      (world₁.withTree (world₁.tree.erase (localPlace world path)))) :
    ¬store.Lost name path world (world₁.withTree (world₁.tree.erase (localPlace world path))) := by
  have hgone := (fewer_erase hsound hfile).sound
  obtain ⟨stored, hhas⟩ := (contains_calm_iff hgone).1 h.contains_eq
  rintro ⟨hbackend, hdir | hplace⟩
  · have hstat := ((has_files_iff hbackend).1 hhas).2
    rw [World.withTree_tree] at hdir
    change (world₁.tree.erase (localPlace world path)).stat _ = _ at hstat
    rw [hdir] at hstat
    cases hstat
  · exact ((has_erase_iff hsound hfile).1 hhas).2 hbackend hplace

theorem arrived_of_new (hsound : world.tree.Sound) (hsound' : world'.tree.Sound)
    (hhas : store.Has world' name (store.raw (.ofBytes body)))
    (hnew : store.overwrite = false → ∀ raw, ¬store.Has world name raw) :
    Arrived store name body world world' := by
  have hread : ((store.readBytes name).perform world'.calm).1 = .ok body := by
    have hcontent : (Source.ofBytes body).content = .ok body := Source.content_ofBytes body
    rw [readBytes_calm (fun _ => hsound') hhas,
      Reader.decoded_of_decodes (decodes_raw hcontent)]
  refine ⟨(contains_calm_iff hsound').2 ⟨_, hhas⟩, fun _ => hread, ?_⟩
  intro hpresent hkeeps
  obtain ⟨raw, hold⟩ := (contains_calm_iff hsound).1 hpresent
  exact absurd hold (hnew hkeeps raw)

theorem arrived_of_old (hsound : world.tree.Sound) (hsound' : world'.tree.Sound)
    (hkeeps : store.overwrite = false) (hhas : store.Has world name raw)
    (hhas' : store.Has world' name raw) : Arrived store name body world world' := by
  have hpresent : ((store.contains name).perform world.calm).1 = .ok true :=
    (contains_calm_iff hsound).2 ⟨raw, hhas⟩
  refine ⟨(contains_calm_iff hsound').2 ⟨raw, hhas'⟩, ?_, ?_⟩
  · rintro (habsent | hreplaces)
    · exact absurd hpresent habsent
    · rw [hkeeps] at hreplaces
      cases hreplaces
  · intro _ _
    rw [readBytes_calm (fun _ => hsound') hhas',
      readBytes_calm (fun _ => hsound) hhas]

theorem lost_of_blocked (hsound : world₁.tree.Sound)
    (hfile : world₁.tree.get? (localPlace world path) = some (.file raw))
    (h : store.Blocked world₁ name (.ofBytes body)) :
    store.Lost name path world (world₁.withTree (world₁.tree.erase (localPlace world path))) := by
  unfold Blocked at h
  cases hbackend : store.backend with
  | files =>
    rw [hbackend] at h
    obtain ⟨hfits, hget⟩ := (Files.stat_objectPathname_iff hsound).1 h
    refine ⟨hbackend, .inl ?_⟩
    -- The local file is a file, so it is not the directory that blocks.
    have hother : Files.objectPlace store name ≠ localPlace world path := by
      intro hsame
      rw [hsame, hfile] at hget
      cases hget
    have hgone : (world₁.tree.erase (localPlace world path)).Sound :=
      (fewer_erase hsound hfile).sound
    rw [World.withTree_tree, Files.stat_objectPathname_iff hgone]
    refine ⟨hfits, ?_⟩
    rw [Files.Tree.get?_erase_of_ne _ hother]
    exact hget
  | gcs =>
    rw [hbackend] at h
    obtain ⟨⟨failure, hcontent, -⟩, -⟩ := h
    rw [Source.content_ofBytes] at hcontent
    cases hcontent
  | s3 =>
    rw [hbackend] at h
    exact h.elim

theorem arrived_of_not_lost (hsound : world.tree.Sound) {written : Bool}
    (h : store.Written name (.ofBytes body) store.overwrite world (.ok written) world₁)
    (hfile : world₁.tree.get? (localPlace world path) = some (.file raw))
    (hlost : ¬store.Lost name path world
      (world₁.withTree (world₁.tree.erase (localPlace world path)))) :
    Arrived store name body world
      (world₁.withTree (world₁.tree.erase (localPlace world path))) := by
  have hother : store.backend = .files →
      Files.objectPlace store name ≠ localPlace world path :=
    fun hbackend hsame => hlost ⟨hbackend, .inr hsame⟩
  cases h with
  | skipped _ hspares hkeeps hfound =>
    have hgone := (fewer_erase hspares.sound hfile).sound
    obtain ⟨raw, hhas⟩ := hfound.resolve_right fun hblocked =>
      hlost (lost_of_blocked hspares.sound hfile hblocked)
    apply arrived_of_old hsound hgone hkeeps ((has_iff_of_spares hsound hspares).1 hhas)
    exact (has_erase_iff hspares.sound hfile).2 ⟨hhas, hother⟩
  | stored _ _ hcontent hnew hstored =>
    have hgone := (fewer_erase hstored.sound hfile).sound
    apply arrived_of_new hsound hgone ?_ hnew
    exact (has_erase_iff hstored.sound hfile).2 ⟨hstored.has, hother⟩

end Arrival

theorem Written.current_eq {source : Source} {replaces : Bool} {result : Except Failure Bool}
    (h : store.Written name source replaces world result world₁) :
    world₁.tree.current = world.tree.current := by
  cases h with
  | failed _ _ hspares => exact hspares.current_eq
  | skipped _ hspares => exact hspares.current_eq
  | stored _ _ _ _ hstored => exact hstored.current_eq

theorem Written.sound {source : Source} {replaces : Bool} {result : Except Failure Bool}
    (h : store.Written name source replaces world result world₁) : world₁.tree.Sound := by
  cases h with
  | failed _ _ hspares => exact hspares.sound
  | skipped _ hspares => exact hspares.sound
  | stored _ _ _ _ hstored => exact hstored.sound

/--
If a push ends well, the body of the local file can be read from the store, unless there was an
object to keep, which can be read as before; only if a directory is in the place of the object, or
the local file is the object, nothing can be read. If the write fails, the local file and all
objects are as they were.
-/
theorem push_moves_iff (hsound : world.tree.Sound) (hhonest : store.Honest world name)
    (hlocal : LocalFile world path body) (told : Option String) :
    (((store.push path name told).perform world).1 = .ok () →
        (Arrived store name body world ((store.push path name told).perform world).2
          ↔ ¬store.Lost name path world ((store.push path name told).perform world).2))
      ∧ ∀ failure, ((store.write name (.ofBytes body)).perform world).1 = .error failure →
          ((store.push path name told).perform world).1 = .error failure
            ∧ LocalFile ((store.push path name told).perform world).2 path body
            ∧ ∀ other name' raw,
                Has other ((store.push path name told).perform world).2 name' raw
                  ↔ Has other world name' raw := by
  obtain ⟨result, world₁, hwrite, hwritten⟩ :=
    write_cases hsound hhonest (.ofBytes body) none
  cases result with
  | error failure =>
    obtain ⟨records, hpush⟩ :=
      (push_yields_of_error hlocal hwrite : (store.push path name told).Yields _ _ _).perform_eq
    have hafter := hwritten.withRecords records
    rw [hpush]
    constructor
    · intro hok
      cases hok
    · intro failure' hfails
      rw [hwrite.fst_eq] at hfails
      cases hfails
      cases hafter with
      | failed _ _ hspares =>
        refine ⟨rfl, hlocal.of_spares hsound hspares, ?_⟩
        intro other name' raw
        exact has_iff_of_spares hsound hspares
  | ok written =>
    constructor
    · intro hok
      cases hunlink : world₁.tree.unlink (Files.Pathname.parse path) with
      | error code =>
        have hpush : ∃ failure, (store.push path name told).Yields world (.error failure) world₁ :=
          push_yields_of_unlink_error hlocal hwrite hunlink
        obtain ⟨failure, hpush⟩ := hpush
        rw [hpush.fst_eq] at hok
        cases hok
      | ok tree =>
        obtain ⟨records, hpush⟩ := (push_yields_of_unlink hlocal hwrite hunlink :
          (store.push path name told).Yields _ _ _).perform_eq
        obtain ⟨raw, hstat, htree⟩ := Files.Tree.unlink_ok hwritten.sound hunlink
        have hplace := localPlace_congr hwritten.current_eq path
        have hget := Files.Tree.get?_of_stat hwritten.sound hstat
        rw [← localPlace, hplace] at hget htree
        have hafter := hwritten.withRecords records
        have hfile : (world₁.withRecords records).tree.get? (localPlace world path)
            = some (.file raw) := hget
        rw [hpush, htree]
        -- The file may as well be removed after the records were left.
        change Arrived store name body world ((world₁.withRecords records).withTree
            ((world₁.withRecords records).tree.erase (localPlace world path)))
          ↔ ¬store.Lost name path world ((world₁.withRecords records).withTree
            ((world₁.withRecords records).tree.erase (localPlace world path)))
        exact ⟨not_lost_of_arrived hafter.sound hfile, arrived_of_not_lost hsound hafter hfile⟩
    · intro failure hfails
      rw [hwrite.fst_eq] at hfails
      cases hfails

section Sample

open Store.Files Depot.Files Depot.Files.Tree

theorem push_yields_of_some {outer : List String} {token : Nat} {node : Node}
    (h : Storable store outer token name) (hrooted : Rooted store outer)
    (hbackend : store.backend = .files) (hkeeps : store.overwrite = false)
    (hsound : world.tree.Sound) (hspare : Spare token world.tree)
    (hget : world.tree.get? (objectPlace store name) = some node)
    (hstart : (Pathname.parse path).start ≠ .current) (hlocal : LocalFile world path body)
    (told : Option String) :
    ∃ tree', (store.push path name told).Yields world (.ok ()) (world.withTree tree')
      ∧ tree'.Sound
      ∧ ∀ place raw, tree'.get? place = some (.file raw) →
        world.tree.get? place = some (.file raw) ∧ place ≠ localPlace world path := by
  obtain ⟨grown, hwrite, hextends, -⟩ := h.write_yields_of_some hrooted hsound hspare hget
    (Source.content_ofBytes body)
  have hwritten : (store.write name (.ofBytes body)).Yields world (.ok false)
      (world.withTree grown) := by
    apply Store.write_yields_of_files hbackend
    unfold mayReplace
    rw [hkeeps]
    exact hwrite
  have hkept := hlocal.of_spares hsound (.of_extends hextends)
  have hroot := startOf_of_ne_current grown hstart
  have hunlink := unlink_of_stat_file hextends.sound hroot hkept.stat_eq
  have hplace : (Pathname.parse path).names.foldl enter [] = localPlace world path := by
    unfold localPlace
    rw [startOf_of_ne_current _ hstart]
  rw [hplace] at hunlink
  have hfile : grown.get? (localPlace world path) = some (.file body) :=
    (hextends.get?_file_iff _ _).2 (hlocal.get?_eq hsound)
  have hfewer : Fewer (world.withTree grown)
      ((world.withTree grown).withTree (grown.erase (localPlace world path))) :=
    fewer_erase hextends.sound hfile
  have hpush : (store.push path name told).Yields world (.ok ())
      ((world.withTree grown).withTree (grown.erase (localPlace world path))) :=
    push_yields_of_unlink hlocal hwritten hunlink
  refine ⟨_, hpush, hfewer.sound, ?_⟩
  intro place raw hraw
  have hold := hfewer.file_of place raw hraw
  refine ⟨(hextends.get?_file_iff _ _).1 hold, ?_⟩
  rintro rfl
  have hne : localPlace world path ≠ [] := by
    intro hnil
    rw [hnil] at hfile
    cases hfile
  rw [get?_erase_self _ hne] at hraw
  cases hraw

def parcel (body : ByteArray) : World :=
  { bare with tree := bare.tree.insert ["x"] (.file body) }

theorem sound_parcel (body : ByteArray) : (parcel body).tree.Sound :=
  sound_bare.insert rfl (by simp) (.inr rfl)

theorem get?_parcel_of_ne {place : Place} (h : place ≠ ["x"]) :
    (parcel body).tree.get? place = bare.tree.get? place :=
  get?_insert_of_ne _ _ h

theorem get?_parcel_self (body : ByteArray) : (parcel body).tree.get? ["x"] = some (.file body) :=
  get?_insert_self _ _ (by simp)

theorem spare_parcel (body : ByteArray) : Spare 0 (parcel body).tree := by
  intro part directory hsome
  by_cases hplace : part :: directory = ["x"]
  · cases hplace
    exact unused_of_not_staging (by decide) 0
  · rw [get?_parcel_of_ne hplace] at hsome
    exact spare_bare 0 part directory hsome

theorem localFile_x (hsound : world.tree.Sound)
    (hget : world.tree.get? ["x"] = some (.file body)) : LocalFile world "/x" body :=
  localFile_of_get? hsound (by decide) (by decide) (by decide) ⟨by decide, by decide⟩ hget

theorem open_parcel {names : List String} (h : "x" ∉ names) (body : ByteArray) :
    (parcel body).tree.Open [] names := by
  intro front hfront raw hfile
  rw [List.append_nil] at hfile
  have hother : front.reverse ≠ ["x"] := by
    intro hsame
    rw [List.reverse_eq_cons_iff] at hsame
    apply h
    apply hfront.subset
    rw [hsame]
    simp
  rw [get?_parcel_of_ne hother] at hfile
  exact fileless_bare _ raw hfile

theorem objectPlace_a : objectPlace shelf "a" = ["a", "d"] := by
  rw [rooted_shelf.objectPlace_eq (by decide)]
  decide

theorem push_moves_iff_sample :
    ((shelf.push "/x" "a" none).perform (parcel "new".toUTF8)).1 = .ok ()
      ∧ ((shelf.readBytes "a").perform
          ((shelf.push "/x" "a" none).perform (parcel "new".toUTF8)).2.calm).1
        = .ok "new".toUTF8 := by
  generalize "new".toUTF8 = body
  have hsound := sound_parcel body
  have hlocal := localFile_x hsound (get?_parcel_self body)
  have hnone : (parcel body).tree.get? (objectPlace shelf "a") = none := by
    rw [objectPlace_a, get?_parcel_of_ne (by simp)]
    rfl
  obtain ⟨tree', hwrite, hplaced⟩ := storable_a.write_yields_of_none rooted_shelf hsound
    (spare_parcel body) (open_parcel (by decide) body) hnone (Source.content_ofBytes body) false
  have hwritten : (shelf.write "a" (.ofBytes body)).Yields (parcel body) (.ok true)
      ((parcel body).withTree tree') := Store.write_yields hwrite
  have hfile : tree'.get? ["x"] = some (.file body) := by
    rw [hplaced.file_iff _ _ (by rw [objectPlace_a]; simp)]
    exact get?_parcel_self body
  have hkept : LocalFile ((parcel body).withTree tree') "/x" body :=
    localFile_x hplaced.sound hfile
  have hunlink : tree'.unlink (Pathname.parse "/x") = .ok (tree'.erase ["x"]) :=
    unlink_of_stat_file hplaced.sound rfl hkept.stat_eq
  have hpush : (shelf.push "/x" "a" none).Yields (parcel body) (.ok ())
      (((parcel body).withTree tree').withTree (tree'.erase ["x"])) :=
    push_yields_of_unlink hlocal hwritten hunlink
  obtain ⟨records, hperform⟩ := hpush.perform_eq
  have hhonest : shelf.Honest (parcel body) "a" := honest_of_files rfl _ _
  have hmoves := (push_moves_iff hsound hhonest hlocal none).1
  rw [hperform] at hmoves ⊢
  have hfree : ¬shelf.Lost "a" "/x" (parcel body)
      ((((parcel body).withTree tree').withTree (tree'.erase ["x"])).withRecords records) := by
    rintro ⟨-, hdir | hplace⟩
    · have hfewer : Fewer ((parcel body).withTree tree')
          (((parcel body).withTree tree').withTree (tree'.erase ["x"])) :=
        fewer_erase hplaced.sound hfile
      have hgone : (tree'.erase ["x"]).Sound := hfewer.sound
      have hthere : (tree'.erase ["x"]).get? (objectPlace shelf "a") = some .directory :=
        get?_objectPlace hgone hdir
      rw [get?_erase_of_ne _ (by rw [objectPlace_a]; simp), hplaced.at_eq] at hthere
      cases hthere
    · rw [objectPlace_a] at hplace
      have hx : localPlace (parcel body) "/x" = ["x"] := rfl
      rw [hx] at hplace
      simp at hplace
  have harrived := (hmoves rfl).2 hfree
  refine ⟨rfl, harrived.read_new (.inl ?_)⟩
  intro hcontains
  obtain ⟨raw, hhas⟩ := (contains_calm_iff hsound).1 hcontains
  have hthere := ((has_files_iff_get? hsound rfl).1 hhas).2.2
  rw [hnone] at hthere
  cases hthere

/-- An object is lost if its own file is pushed. -/
theorem push_own_file :
    ∃ world world', shelf.serve [.write "a" (.ofBytes .empty) none] bare = ([.flag true], world)
      ∧ LocalFile world "/d/a" .empty
      ∧ (shelf.push "/d/a" "a" none).perform world = (.ok (), world')
      ∧ ((shelf.contains "a").perform world'.calm).1 = .ok false := by
  obtain ⟨tree, hwrite, hplaced⟩ := storable_a.write_yields_of_none rooted_shelf sound_bare
    (spare_bare 0) (open_bare _) (get?_bare_object storable_a) (Source.content_ofBytes .empty) false
  have hwritten : (shelf.write "a" (.ofBytes .empty) none).Yields bare (.ok true)
      (bare.withTree tree) := Store.write_yields hwrite
  obtain ⟨records, hafter⟩ := Answer.after_of_yields .flag hwritten
  have hdecodes : shelf.compression.Decodes (shelf.raw (.ofBytes .empty)) .empty :=
    decodes_raw (Source.content_ofBytes .empty)
  have hraw : shelf.raw (.ofBytes .empty) = .empty := Codec.decodes_none_iff.1 hdecodes
  have hget := hplaced.at_eq
  rw [hraw] at hget
  have hlocal : LocalFile ((bare.withTree tree).withRecords records) "/d/a" .empty := by
    rw [objectPlace_a] at hget
    exact localFile_of_get? hplaced.sound (by decide) (by decide) (by decide)
      ⟨by decide, by decide⟩ hget
  obtain ⟨tree', hpush, hsound', hfiles⟩ := push_yields_of_some storable_a rooted_shelf rfl rfl
    hplaced.sound hplaced.spare hget (by decide) hlocal none
  obtain ⟨records', hperform⟩ := hpush.perform_eq
  refine ⟨_, _, ?_, hlocal, hperform, ?_⟩
  · simp only [serve, Request.perform]
    rw [hafter]
    rfl
  · apply Yields.fst_eq
    apply storable_a.contains_yields_of_not_file rooted_shelf rfl hsound'
    intro raw hfile
    refine (hfiles _ raw hfile).2 ?_
    rw [objectPlace_a]
    rfl

theorem push_to_leftover :
    ∃ world world', shelf.serve [.write "a/b" (.ofBytes .empty) none, .delete "a/b"] (parcel .empty)
        = ([.flag true, .done], world)
      ∧ LocalFile world "/x" .empty
      ∧ (shelf.push "/x" "a" none).perform world = (.ok (), world')
      ∧ ((shelf.contains "a").perform world'.calm).1 = .ok false := by
  have hstorable : Storable shelf ["d"] 0 "a/b" :=
    storable_shelf (by decide) (by decide) (by decide)
  have hplace : objectPlace shelf "a/b" = ["b", "a", "d"] := by
    rw [rooted_shelf.objectPlace_eq (by decide)]
    decide
  have hnone : (parcel .empty).tree.get? (objectPlace shelf "a/b") = none := by
    rw [hplace, get?_parcel_of_ne (by simp)]
    rfl
  obtain ⟨world, hserve, hsound, hspare, -, hdir, hfiles⟩ := hstorable.serve_leftover rooted_shelf
    rfl (sound_parcel .empty) (spare_parcel .empty) (open_parcel (by decide) .empty) hnone
    (Source.content_ofBytes .empty) none
  rw [hplace, List.tail_cons, ← objectPlace_a, hasDirectory_iff] at hdir
  have hlocal : LocalFile world "/x" .empty :=
    localFile_x hsound ((hfiles _ _).2 (get?_parcel_self .empty))
  obtain ⟨tree', hpush, hsound', hold⟩ := push_yields_of_some storable_a rooted_shelf rfl rfl
    hsound hspare hdir (by decide) hlocal none
  obtain ⟨records, hperform⟩ := hpush.perform_eq
  refine ⟨_, _, hserve, hlocal, hperform, ?_⟩
  apply Yields.fst_eq
  apply storable_a.contains_yields_of_not_file rooted_shelf rfl hsound'
  intro raw hfile
  have hthere := (hold _ raw hfile).1
  rw [hdir] at hthere
  cases hthere

end Sample

end Depot.Store
