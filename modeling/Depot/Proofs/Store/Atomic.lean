import Depot.Proofs.Store.Frames
import Depot.Proofs.Store.Sessions

/-!
This module contains the atomicity of writes: a write stores all of its source under its key, or
leaves every body as it is. Nothing else is new but directories.
-/

namespace Depot

open Depot.Action

namespace Files.Tree

variable {tree : Tree} {directory place : Place} {p : Pathname} {bytes : ByteArray}

theorem content_eq_ok_iff : tree.content p = .ok bytes ↔ tree.stat p = .ok (.file bytes) := by
  unfold content
  cases tree.stat p with
  | error code => simp [bind, Except.bind]
  | ok node =>
    cases node <;> simp [bind, Except.bind, pure, Except.pure, throw, throwThe, MonadExceptOf.throw]

theorem Leads.stat_eq_file (h : tree.Leads p.start p.names.dropLast directory)
    (hfits : exceeds p = false) (hentry : entryOf? directory p = some place)
    (hget : tree.get? place = some (.file bytes)) : tree.stat p = .ok (.file bytes) := by
  obtain ⟨start, names⟩ := p
  obtain ⟨last, -, rfl⟩ := exists_of_entryOf? hentry
  rcases List.eq_nil_or_concat names with rfl | ⟨outer, name, rfl⟩
  · cases hentry
  · rw [List.concat_eq_append] at *
    unfold entryOf? at hentry
    unfold exceeds at hfits
    simp only [List.dropLast_concat, List.getLast?_concat, Option.bind_some] at h hentry hfits
    have hname : last = name := by
      unfold lastPlace? at hentry
      split at hentry
      · cases hentry
      · cases hentry
        rfl
    subst hname
    have hlocate := h.followFrom_eq (by rw [hget]; simp) false
    rw [hfits, if_neg Bool.false_ne_true, hentry] at hlocate
    dsimp only at hlocate
    rw [hget, if_neg (by simp)] at hlocate
    exact stat_eq_ok_iff.2 ⟨_, hlocate, hget⟩

end Files.Tree

namespace Store

variable {store : Store} {name : String} {source : Source} {replaces : Bool}
  {overwrite : Option Bool} {world world' : World} {result : Except Failure Bool}

def slotAt (backend : Backend) (key : String) : Slot :=
  match backend with
  | .files => .file ((Files.keyPath key).names.foldl Files.Tree.enter [])
  | .gcs | .s3 => .blob key

theorem slotAt_files (h : store.backend = .files) :
    slotAt store.backend (store.key name) = .file (Files.objectPlace store name) := by
  unfold slotAt Files.objectPlace
  rw [h, Files.objectPathname]

theorem slotAt_bucket (h : store.backend ≠ .files) (key : String) :
    slotAt store.backend key = .blob key := by
  unfold slotAt
  split
  next hfiles => exact absurd hfiles h
  · rfl
  · rfl

/-- Whether what pathnames lead to is told in one world as in another one before. -/
structure Carries (backend : Backend) (world world' : World) : Prop where
  sound : backend = .files → world.tree.Sound → world'.tree.Sound
  current_eq : world'.tree.current = world.tree.current

namespace Carries

variable {backend : Backend} {world' world'' : World}

theorem of_tree (h : world'.tree = world.tree) : Carries backend world world' := by
  refine ⟨fun _ hsound => ?_, ?_⟩
  · rw [h]
    exact hsound
  · rw [h]

theorem trans (h : Carries backend world world') (h' : Carries backend world' world'') :
    Carries backend world world'' :=
  ⟨fun hfiles hsound => h'.sound hfiles (h.sound hfiles hsound),
    h'.current_eq.trans h.current_eq⟩

end Carries

theorem write_framed (hsound : store.backend = .files → world.tree.Sound) (name : String)
    (source : Source) (overwrite : Option Bool) :
    ∃ result world', (store.write name source overwrite).Yields world result world'
      ∧ store.Framed (slotAt store.backend (store.key name)) source (store.mayReplace overwrite)
          world result world'
      ∧ Carries store.backend world world' := by
  by_cases hfiles : store.backend = .files
  · obtain ⟨result, tree, hwrite, hwrote⟩ :=
      Files.write_cases (hsound hfiles) store name source (store.mayReplace overwrite)
    obtain ⟨hsound', hcurrent⟩ := sound_of_wrote hwrote
    rw [slotAt_files hfiles]
    exact ⟨result, world.withTree tree, write_yields_of_files hfiles hwrite,
      framed_of_wrote hwrote, fun _ _ => hsound', hcurrent⟩
  · obtain ⟨result, world', hwrite, hframed, htree⟩ :=
      write_framed_of_bucket hfiles name source overwrite world
    rw [slotAt_bucket hfiles]
    exact ⟨result, world', hwrite, hframed, .of_tree htree⟩

theorem tried_of_performs (hfiles : store.backend = .files)
    (h : (store.write name source overwrite).perform world = (result, world')) :
    ∃ tree' records, world' = (world.withTree tree').withRecords records
      ∧ Files.Tried store name source (store.mayReplace overwrite) world.tree result tree' := by
  obtain ⟨result', tree', hwrite, htried⟩ :=
    Files.write_tries store name source (store.mayReplace overwrite) world
  have hyields : (store.write name source overwrite).Yields world result'
      (world.withTree tree') := write_yields_of_files hfiles hwrite
  obtain ⟨records, hperform⟩ := hyields.perform_eq
  rw [h] at hperform
  cases hperform
  exact ⟨tree', records, rfl, htried⟩

/--
What a write leaves: every body but the one at its key as it was, and that too unless all of the
source is stored there.
-/
structure Atomic (store : Store) (name : String) (source : Source) (replaces : Bool)
    (world : World) (result : Except Failure Bool) (world' : World) : Prop where
  others : ∀ slot, slot ≠ slotAt store.backend (store.key name) →
    world'.body? slot = world.body? slot
  kept : result ≠ .ok true →
    world'.body? (slotAt store.backend (store.key name))
      = world.body? (slotAt store.backend (store.key name))
  stored : result = .ok true → ∃ body, source.content = .ok body
    ∧ (replaces = false → world.body? (slotAt store.backend (store.key name)) = none)
    ∧ world'.body? (slotAt store.backend (store.key name)) = some (store.raw source)
    ∧ store.compression.Decodes (store.raw source) body
  /-- In particular there is no staging file left. -/
  tree : ∀ place, (result ≠ .ok true ∨ slotAt store.backend (store.key name) ≠ .file place) →
    world'.tree.get? place = world.tree.get? place
      ∨ world.tree.get? place = none ∧ world'.tree.get? place = some .directory

theorem get?_of_wrote {tree tree' : Files.Tree} {place : Files.Place}
    (h : Files.Wrote store name source replaces tree result tree')
    (hplace : result ≠ .ok true ∨ place ≠ Files.objectPlace store name) :
    tree'.get? place = tree.get? place
      ∨ tree.get? place = none ∧ tree'.get? place = some .directory := by
  cases h with
  | failed failure _ hextends hwhy => exact hextends.grows.get?_cases place
  | skipped body _ node hcontent hextends hwithin hkeeps hstat =>
    exact hextends.grows.get?_cases place
  | stored body grown _ hextends hwithin hcontent hfile hnew hholds hstat =>
    rw [hholds.off_eq place (hplace.resolve_left fun hne => hne rfl)]
    exact hextends.grows.get?_cases place

theorem Atomic.of_framed
    (h : store.Framed (slotAt store.backend (store.key name)) source replaces world result world')
    (htree : ∀ place, (result ≠ .ok true ∨ slotAt store.backend (store.key name) ≠ .file place) →
      world'.tree.get? place = world.tree.get? place
        ∨ world.tree.get? place = none ∧ world'.tree.get? place = some .directory) :
    store.Atomic name source replaces world result world' := by
  cases h with
  | kept _ _ hresult hsame =>
    exact ⟨fun slot _ => hsame slot, fun _ => hsame _, fun hstored => absurd hstored hresult, htree⟩
  | stored body _ hcontent hnew hbody hoff =>
    exact ⟨hoff, fun hresult => absurd rfl hresult,
      fun _ => ⟨body, hcontent, hnew, hbody, decodes_raw hcontent⟩, htree⟩

theorem atomic_of_performs (hsound : store.backend = .files → world.tree.Sound)
    (h : (store.write name source overwrite).perform world = (result, world')) :
    store.Atomic name source (store.mayReplace overwrite) world result world' := by
  by_cases hfiles : store.backend = .files
  · obtain ⟨tree', records, rfl, htried⟩ := tried_of_performs hfiles h
    have hwrote := Files.Wrote.of_tried (hsound hfiles) htried
    have hframed := framed_of_wrote hwrote
    rw [← slotAt_files hfiles] at hframed
    refine .of_framed (hframed.congr (fun _ => rfl) fun _ => World.body?_withRecords _ _ _) ?_
    intro place hplace
    rw [slotAt_files hfiles] at hplace
    refine get?_of_wrote hwrote (hplace.imp_right ?_)
    rintro hne rfl
    exact hne rfl
  · obtain ⟨result', after, hyields, hframed, htree⟩ :=
      write_framed_of_bucket hfiles name source overwrite world
    obtain ⟨records, hperform⟩ := hyields.perform_eq
    rw [h] at hperform
    cases hperform
    rw [← slotAt_bucket hfiles] at hframed
    refine .of_framed (hframed.congr (fun _ => rfl) fun _ => World.body?_withRecords _ _ _) ?_
    intro place _
    rw [World.withRecords_tree, htree]
    exact .inl rfl

theorem has_of_stored (hsound : store.backend = .files → world.tree.Sound)
    (h : (store.write name source overwrite).perform world = (.ok true, world')) :
    store.Has world' name (store.raw source) := by
  by_cases hfiles : store.backend = .files
  · obtain ⟨tree', records, rfl, htried⟩ := tried_of_performs hfiles h
    cases Files.Wrote.of_tried (hsound hfiles) htried with
    | stored body grown _ hextends hwithin hcontent hfile hnew hholds hstat =>
      have hcurrent := hholds.current_eq.trans hextends.current_eq
      exact (has_files_iff hfiles).2 ⟨hwithin.congr hcurrent, hstat⟩
  · obtain ⟨body, -, -, hbody, -⟩ := (atomic_of_performs hsound h).stored rfl
    rw [slotAt_bucket hfiles] at hbody
    exact (has_bucket_iff hfiles).2 hbody

theorem sound_of_performs (hsound : store.backend = .files → world.tree.Sound)
    (h : (store.write name source overwrite).perform world = (result, world')) :
    store.backend = .files → world'.tree.Sound := by
  intro hfiles
  obtain ⟨tree', records, rfl, htried⟩ := tried_of_performs hfiles h
  exact (sound_of_wrote (Files.Wrote.of_tried (hsound hfiles) htried)).1

/--
A write stores all of its source under its key or changes no body, and nothing else is new but
directories. What it has stored is what is read under its name. A tree without links stays one.
-/
theorem write_atomic (hsound : store.backend = .files → world.tree.Sound)
    (h : (store.write name source overwrite).perform world = (result, world')) :
    store.Atomic name source (store.mayReplace overwrite) world result world'
      ∧ (store.backend = .files → world'.tree.Sound)
      ∧ (result = .ok true →
          ((store.readBytes name).perform world'.calm).1 = source.content) := by
  have hatomic := atomic_of_performs hsound h
  have hsound' := sound_of_performs hsound h
  refine ⟨hatomic, hsound', ?_⟩
  rintro rfl
  obtain ⟨body, hcontent, -, -, hdecodes⟩ := hatomic.stored rfl
  rw [readBytes_calm hsound' (has_of_stored hsound h), Reader.decoded_of_decodes hdecodes, hcontent]

section Sample

open Depot.Files Files Depot.Files.Tree

theorem write_atomic_sample :
    (shelf.backend = .files → (bare.meeting none).tree.Sound)
      ∧ ∃ world', (shelf.write "a" (.ofBytes "new".toUTF8) none).perform (bare.meeting none)
          = (.ok true, world')
        ∧ shelf.Atomic "a" (.ofBytes "new".toUTF8) false (bare.meeting none) (.ok true) world'
        ∧ ((shelf.readBytes "a").perform world'.calm).1 = .ok "new".toUTF8 := by
  have hsound : shelf.backend = .files → (bare.meeting none).tree.Sound := fun _ => sound_bare
  obtain ⟨world', hperform, -⟩ := Session.exists_shelved "new".toUTF8
  obtain ⟨hatomic, -, hread⟩ := write_atomic hsound hperform
  exact ⟨hsound, world', hperform, hatomic, (hread rfl).trans (Source.content_ofBytes _)⟩

end Sample

theorem replace_performs {p : Depot.Files.Pathname} {grown : Depot.Files.Tree}
    {place : Depot.Files.Place} {body : ByteArray} (hbackend : store.backend = .files)
    (hp : Files.objectPathname store name = p)
    (hpath : Files.checkedPath store name world.tree = .ok p)
    (hmade : world.tree.makeDirectories p.start p.names.dropLast.reverse = (.ok (), grown))
    (hfits : Depot.Files.Tree.refuses p.start p.names.dropLast (Files.freshStaging grown p) = false)
    (hentry : grown.entry? p = .ok (some place)) (hfree : grown.hasDirectory place = false)
    (hcontent : source.content = .ok body) :
    ∃ world', (store.write name source (some true)).perform world = (.ok true, world')
      ∧ grown.Gains place (store.raw source) world'.tree := by
  subst hp
  have hgrown : Files.directories store name world.tree = (.ok (), grown) := hmade
  rcases hperform : (store.write name source (some true)).perform world with ⟨result, world'⟩
  obtain ⟨tree', records, rfl, htried⟩ := tried_of_performs hbackend hperform
  cases htried with
  | outside failure hnot =>
    rw [hpath] at hnot
    cases hnot
  | noDirectory error _ hnot =>
    rw [hgrown] at hnot
    cases hnot
  | tooLong failure _ hlong =>
    unfold Files.stagingOf at hlong
    rw [hgrown, hfits] at hlong
    cases hlong
  | staged directory _ _ _ _ _ hleads hshort hstaged =>
    have hplace := hleads.entry?_pathname hshort
    rw [hgrown] at hleads hstaged hplace
    rw [hentry, Except.ok.injEq] at hplace
    rw [← hplace] at hstaged
    cases hstaged with
    | failed failure _ hsame hwhy =>
      rcases hwhy with herror | ⟨-, hdirectory⟩
      · rw [hcontent] at herror
        cases herror
      · rw [hdirectory place rfl] at hfree
        cases hfree
    | skipped _ _ _ _ hkeeps _ => cases hkeeps
    | stored _ place' _ _ hsame _ _ hgains =>
      cases hsame
      exact ⟨_, rfl, hgains⟩

end Store

end Depot
