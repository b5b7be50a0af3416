import Depot.Proofs.Store.Cloud
import Depot.Proofs.Store.Listing
import Depot.Proofs.Store.Objects

/-!
This module contains what stores of all kinds have in common: whether a store holds an object, that
this is what its answers tell, and what a write or a deletion makes of it.
-/

namespace Depot

open Depot.Action

namespace World

def calm (world : World) : World :=
  { world with fault := none }

/-- Whether nothing but directories and records was added to a world. -/
structure Spares (world world' : World) : Prop where
  sound : world'.tree.Sound
  current_eq : world'.tree.current = world.tree.current
  file_iff : ∀ place bytes, world'.tree.get? place = some (.file bytes)
    ↔ world.tree.get? place = some (.file bytes)
  directory : ∀ place, world.tree.hasDirectory place = true → world'.tree.hasDirectory place = true
  get?_eq : ∀ key, world'.bucket.get? key = world.bucket.get? key

namespace Spares

variable {world : World}

theorem refl (hsound : world.tree.Sound) : Spares world world :=
  ⟨hsound, rfl, fun _ _ => .rfl, fun _ h => h, fun _ => rfl⟩

theorem of_extends {tree : Files.Tree} {new : Files.Place → Prop}
    (h : world.tree.Extends tree new) : Spares world (world.withTree tree) :=
  ⟨h.sound, h.current_eq, h.get?_file_iff, fun _ hdir => h.hasDirectory hdir, fun _ => rfl⟩

theorem withRecords {world' : World} (h : Spares world world') (records : Records) :
    Spares world (world'.withRecords records) :=
  ⟨h.sound, h.current_eq, h.file_iff, h.directory, h.get?_eq⟩

end Spares

end World

namespace Store

variable {store : Store} {name : String} {source : Source} {overwrite : Option Bool}
  {world world' : World} {raw body : ByteArray} {failure : Failure}

/-- Whether a store holds an object, kept as these bytes. -/
def Has (store : Store) (world : World) (name : String) (raw : ByteArray) : Prop :=
  match store.backend with
  | .files => Files.Within store world.tree name
      ∧ world.tree.stat (Files.objectPathname store name) = .ok (.file raw)
  | .gcs | .s3 => world.bucket.get? (store.key name) = some raw

theorem has_files_iff (h : store.backend = .files) :
    store.Has world name raw
      ↔ Files.Within store world.tree name
        ∧ world.tree.stat (Files.objectPathname store name) = .ok (.file raw) := by
  unfold Has
  rw [h]

theorem has_bucket_iff (h : store.backend ≠ .files) :
    store.Has world name raw ↔ world.bucket.get? (store.key name) = some raw := by
  unfold Has
  split
  next hfiles => exact absurd hfiles h
  · exact .rfl
  · exact .rfl

theorem exists_has_bucket_iff (h : store.backend ≠ .files) :
    (∃ raw, store.Has world name raw) ↔ world.bucket.has (store.key name) = true := by
  unfold Cloud.Bucket.has
  simp only [has_bucket_iff h, Option.isSome_iff_exists]

theorem has_files_iff_get? (hsound : world.tree.Sound) (h : store.backend = .files) :
    store.Has world name raw
      ↔ Files.Within store world.tree name ∧ (Files.objectPathname store name).Fits
        ∧ world.tree.get? (Files.objectPlace store name) = some (.file raw) := by
  rw [has_files_iff h, Files.stat_objectPathname_iff hsound]

theorem has_iff_of_spares (hsound : world.tree.Sound) (h : world.Spares world') :
    store.Has world' name raw ↔ store.Has world name raw := by
  by_cases hbackend : store.backend = .files
  · rw [has_files_iff_get? hsound hbackend, has_files_iff_get? h.sound hbackend, h.file_iff]
    constructor
    · rintro ⟨hwithin, hrest⟩
      exact ⟨hwithin.congr h.current_eq.symm, hrest⟩
    · rintro ⟨hwithin, hrest⟩
      exact ⟨hwithin.congr h.current_eq, hrest⟩
  · rw [has_bucket_iff hbackend, has_bucket_iff hbackend, h.get?_eq]

theorem contains_files_iff (hsound : world.tree.Sound) (h : store.backend = .files) :
    ((store.contains name).perform world).1 = .ok true ↔ ∃ raw, store.Has world name raw := by
  simp only [has_files_iff h]
  by_cases hwithin : Files.Within store world.tree name
  · have hcontains : (store.contains name).Yields world
        (Files.existence world.tree (Files.objectPathname store name)) world :=
      contains_yields_of_files h (Files.contains_yields_of_within hsound hwithin)
    rw [hcontains.fst_eq, Files.existence_eq_ok_true_iff]
    simp only [hwithin, true_and]
  · obtain ⟨failure, hfails⟩ := Files.contains_yields_of_not_within hsound hwithin
    rw [(contains_yields_of_files h hfails).fst_eq]
    simp [hwithin]

theorem contains_eq_ok_true_iff (hsound : world.tree.Sound) (hcalm : world.fault = none) :
    ((store.contains name).perform world).1 = .ok true ↔ ∃ raw, store.Has world name raw := by
  cases hbackend : store.backend with
  | files => exact contains_files_iff hsound hbackend
  | gcs =>
    have hcontains : (store.contains name).Yields world
        (.ok (world.bucket.has (store.key name))) world := by
      apply contains_yields
      rw [hbackend]
      exact Gcs.contains_yields hcalm store name
    rw [exists_has_bucket_iff (by rw [hbackend]; simp), hcontains.fst_eq]
    simp
  | s3 =>
    have hcontains : (store.contains name).Yields world
        (.ok (world.bucket.has (store.key name))) world := by
      apply contains_yields
      rw [hbackend]
      exact S3.contains_yields hcalm store name
    rw [exists_has_bucket_iff (by rw [hbackend]; simp), hcontains.fst_eq]
    simp

theorem openRaw_yields_of_has (hsound : store.backend = .files → world.tree.Sound)
    (hcalm : world.fault = none) (h : store.Has world name raw) :
    (store.openRaw name).Yields world (.ok raw) world := by
  unfold openRaw
  cases hbackend : store.backend with
  | files =>
    obtain ⟨hwithin, hstat⟩ := (has_files_iff hbackend).1 h
    exact Files.openRaw_yields_of_stat (hsound hbackend) hwithin hstat
  | gcs =>
    exact Gcs.openRaw_yields_of_some store hcalm ((has_bucket_iff (by rw [hbackend]; simp)).1 h)
  | s3 =>
    exact S3.openRaw_yields_of_some store hcalm ((has_bucket_iff (by rw [hbackend]; simp)).1 h)

theorem readBytes_of_has (hsound : store.backend = .files → world.tree.Sound)
    (hcalm : world.fault = none) (h : store.Has world name raw) :
    ((store.readBytes name).perform world).1 = Reader.decoded store.compression raw :=
  (readBytes_yields_of_ok (openRaw_yields_of_has hsound hcalm h)).fst_eq

theorem has_calm (store : Store) (world : World) (name : String) (raw : ByteArray) :
    store.Has world.calm name raw ↔ store.Has world name raw := by
  unfold Has
  exact .rfl

theorem has_withRecords (store : Store) (world : World) (records : Records) (name : String)
    (raw : ByteArray) :
    store.Has (world.withRecords records) name raw ↔ store.Has world name raw := by
  unfold Has
  exact .rfl

theorem contains_calm_iff (hsound : world.tree.Sound) :
    ((store.contains name).perform world.calm).1 = .ok true ↔ ∃ raw, store.Has world name raw := by
  have hcalm : world.calm.tree.Sound := hsound
  rw [contains_eq_ok_true_iff hcalm rfl]
  simp only [has_calm]

theorem readBytes_calm (hsound : store.backend = .files → world.tree.Sound)
    (h : store.Has world name raw) :
    ((store.readBytes name).perform world.calm).1 = Reader.decoded store.compression raw := by
  have hcalm : store.backend = .files → world.calm.tree.Sound := hsound
  exact readBytes_of_has hcalm rfl ((has_calm store world name raw).2 h)

def collides (store : Store) (failure : Failure) : Prop :=
  match store.backend with
  | .files => False
  | .gcs => Cloud.Gcs.collides failure = true
  | .s3 => Cloud.S3.collides failure = .ok true

/-- Whether a provider only answers that there is an object if there is one. -/
def Honest (store : Store) (world : World) (name : String) : Prop :=
  ∀ call failure, world.met call = some failure → store.collides failure →
    world.bucket.has (store.key name) = true

theorem honest_of_files (h : store.backend = .files) (world : World) (name : String) :
    store.Honest world name := by
  intro call failure hmet hcollides
  unfold collides at hcollides
  rw [h] at hcollides
  exact hcollides.elim

def Blocked (store : Store) (world : World) (name : String) (source : Source) : Prop :=
  match store.backend with
  | .files => world.tree.stat (Files.objectPathname store name) = .ok .directory
  | .gcs => (∃ failure, source.content = .error failure ∧ failure.interrupts = false
        ∧ Cloud.Gcs.collides failure = true)
      ∧ world.bucket.has (store.key name) = false
  | .s3 => False

theorem blocked_withRecords (store : Store) (world : World) (records : Records) (name : String)
    (source : Source) :
    store.Blocked (world.withRecords records) name source ↔ store.Blocked world name source := by
  unfold Blocked
  exact .rfl

theorem not_has_of_blocked (h : store.Blocked world name source) : ¬store.Has world name raw := by
  unfold Blocked at h
  unfold Has
  cases hbackend : store.backend with
  | files =>
    rw [hbackend] at h
    dsimp only at h ⊢
    rw [h]
    simp
  | gcs =>
    rw [hbackend] at h
    have hnot := h.2
    unfold Cloud.Bucket.has at hnot
    dsimp only
    intro hget
    rw [hget] at hnot
    cases hnot
  | s3 =>
    rw [hbackend] at h
    exact h.elim

structure Stored (store : Store) (name : String) (raw : ByteArray) (world world' : World) :
    Prop where
  sound : world'.tree.Sound
  current_eq : world'.tree.current = world.tree.current
  has : store.Has world' name raw
  file_of : ∀ place bytes, world'.tree.get? place = some (.file bytes) →
    world.tree.get? place = some (.file bytes)
      ∨ store.backend = .files ∧ place = Files.objectPlace store name ∧ bytes = raw
  body_of : ∀ key bytes, world'.bucket.get? key = some bytes →
    world.bucket.get? key = some bytes
      ∨ store.backend ≠ .files ∧ key = store.key name ∧ bytes = raw

inductive Written (store : Store) (name : String) (source : Source) (replaces : Bool)
    (world : World) : Except Failure Bool → World → Prop where
  | failed (failure : Failure) (world' : World) (hspares : world.Spares world') :
      Written store name source replaces world (.error failure) world'
  | skipped (world' : World) (hspares : world.Spares world') (hkeeps : replaces = false)
      (hfound : (∃ raw, store.Has world' name raw) ∨ store.Blocked world' name source) :
      Written store name source replaces world (.ok false) world'
  | stored (body : ByteArray) (world' : World) (hcontent : source.content = .ok body)
      (hnew : replaces = false → ∀ raw, ¬store.Has world name raw)
      (hstored : store.Stored name (store.raw source) world world') :
      Written store name source replaces world (.ok true) world'

theorem Written.withRecords {replaces : Bool} {result : Except Failure Bool}
    (h : store.Written name source replaces world result world') (records : Records) :
    store.Written name source replaces world result (world'.withRecords records) := by
  cases h with
  | failed failure _ hspares => exact .failed failure _ (hspares.withRecords records)
  | skipped _ hspares hkeeps hfound =>
    refine .skipped _ (hspares.withRecords records) hkeeps ?_
    simp only [has_withRecords, blocked_withRecords]
    exact hfound
  | stored body _ hcontent hnew hstored =>
    refine .stored body _ hcontent hnew
      ⟨hstored.sound, hstored.current_eq, ?_, hstored.file_of, hstored.body_of⟩
    rw [has_withRecords]
    exact hstored.has

section Write

variable {replaces : Bool} {result : Except Failure Bool} {tree : Files.Tree}

theorem written_of_wrote (hsound : world.tree.Sound) (hbackend : store.backend = .files)
    (h : Files.Wrote store name source replaces world.tree result tree) :
    store.Written name source replaces world result (world.withTree tree) := by
  cases h with
  | failed failure _ hextends hwhy => exact .failed failure _ (.of_extends hextends)
  | skipped body _ node hcontent hextends hwithin hkeeps hstat =>
    refine .skipped _ (.of_extends hextends) hkeeps ?_
    -- A skipped write has found an object, or a directory that blocks it.
    cases node with
    | file raw =>
      refine .inl ⟨raw, (has_files_iff hbackend).2 ⟨hwithin.congr hextends.current_eq, hstat⟩⟩
    | directory =>
      right
      unfold Blocked
      rw [hbackend]
      exact hstat
    | link target =>
      exact absurd (Files.get?_objectPlace hextends.sound hstat) (hextends.sound.linkless _ target)
  | stored body grown _ hextends hwithin hcontent hfile hnew hholds hstat =>
    have hcurrent := hholds.current_eq.trans hextends.current_eq
    refine .stored body _ hcontent ?_ ⟨hholds.sound, hcurrent, ?_, ?_, fun _ _ hget => .inl hget⟩
    · intro hkeeps raw hhas
      have hold := Files.get?_objectPlace hsound ((has_files_iff hbackend).1 hhas).2
      have hnone := hnew hkeeps
      rw [(hextends.get?_file_iff _ raw).2 hold] at hnone
      cases hnone
    · exact (has_files_iff hbackend).2 ⟨hwithin.congr hcurrent, hstat⟩
    · intro place bytes hget
      by_cases hplace : place = Files.objectPlace store name
      · rw [World.withTree_tree, hplace, hholds.at_eq] at hget
        cases hget
        exact .inr ⟨hbackend, hplace, rfl⟩
      · rw [World.withTree_tree, hholds.off_eq place hplace, hextends.get?_file_iff] at hget
        exact .inl hget

theorem stored_put (hsound : world.tree.Sound) (hbackend : store.backend ≠ .files) (name : String)
    (raw : ByteArray) :
    store.Stored name raw world (world.withBucket (world.bucket.put (store.key name) raw)) := by
  refine ⟨hsound, rfl, ?_, fun _ _ hget => .inl hget, ?_⟩
  · rw [has_bucket_iff hbackend]
    exact Cloud.Bucket.get?_put_self _ _ _
  · intro key bytes hget
    by_cases hkey : key = store.key name
    · rw [World.withBucket_bucket, hkey, Cloud.Bucket.get?_put_self] at hget
      cases hget
      exact .inr ⟨hbackend, hkey, rfl⟩
    · rw [World.withBucket_bucket, Cloud.Bucket.get?_put_of_ne _ _ hkey] at hget
      exact .inl hget

theorem written_of_put (hsound : world.tree.Sound) (hbackend : store.backend ≠ .files)
    (hcontent : source.content = .ok body)
    (hhas : (!replaces && world.bucket.has (store.key name)) = false) :
    store.Written name source replaces world (.ok true)
      (world.withBucket (world.bucket.put (store.key name) (store.raw source))) := by
  refine .stored body _ hcontent ?_ (stored_put hsound hbackend name _)
  intro hkeeps raw hold
  have hfound := (exists_has_bucket_iff hbackend).1 ⟨raw, hold⟩
  rw [hkeeps, hfound] at hhas
  cases hhas

theorem written_of_refused (hsound : world.tree.Sound) (hbackend : store.backend ≠ .files)
    (hhas : (!replaces && world.bucket.has (store.key name)) = true) :
    store.Written name source replaces world (.ok false) world := by
  rw [Bool.and_eq_true, Bool.not_eq_true'] at hhas
  exact .skipped _ (.refl hsound) hhas.1 (.inl ((exists_has_bucket_iff hbackend).2 hhas.2))

theorem found_of_broken {failure : Failure} {onlyNew : Bool} (hbackend : store.backend = .gcs)
    (hhonest : store.Honest world name)
    (h : Gcs.Broken store (store.key name) source onlyNew world failure)
    (hordinary : failure.interrupts = false) (hcollides : Cloud.Gcs.collides failure = true) :
    (∃ raw, store.Has world name raw) ∨ store.Blocked world name source := by
  have hbucket : store.backend ≠ .files := by
    rw [hbackend]
    simp
  rw [exists_has_bucket_iff hbucket]
  have hmet : ∀ call, world.met call = some failure →
      world.bucket.has (store.key name) = true := by
    intro call hmet
    apply hhonest call failure hmet
    unfold collides
    rw [hbackend]
    exact hcollides
  -- An honest provider only refuses for an object; the source may fail as it likes.
  cases h with
  | atOpening hopen => exact .inl (hmet _ hopen)
  | atCommit _ _ _ hcommit => exact .inl (hmet _ hcommit)
  | bySource _ hcontent =>
    cases hhas : world.bucket.has (store.key name) with
    | true => exact .inl rfl
    | false =>
      right
      unfold Blocked
      rw [hbackend]
      exact ⟨⟨failure, hcontent, hordinary, hcollides⟩, hhas⟩

theorem gcs_write_cases (hsound : world.tree.Sound) (hbackend : store.backend = .gcs)
    (hhonest : store.Honest world name) (source : Source) (replaces : Bool) :
    ∃ result world', (Gcs.write store name source replaces).Yields world result world'
      ∧ store.Written name source replaces world result world' := by
  have hbucket : store.backend ≠ .files := by
    rw [hbackend]
    simp
  rcases Gcs.broken_or_sound store (store.key name) source (!replaces) world with
    ⟨failure, hbroken⟩ | ⟨body, hok⟩
  · refine ⟨_, world, Gcs.write_yields_of_broken store hbroken, ?_⟩
    cases replaces with
    | true => exact .failed failure world (.refl hsound)
    | false =>
      rw [refused_of_answer]
      cases htaken : !failure.interrupts && Cloud.Gcs.collides failure with
      | false => exact .failed failure world (.refl hsound)
      | true =>
        rw [Bool.and_eq_true, Bool.not_eq_true'] at htaken
        exact .skipped world (.refl hsound) rfl
          (found_of_broken hbackend hhonest hbroken htaken.1 htaken.2)
  · cases hhas : !replaces && world.bucket.has (store.key name) with
    | true =>
      exact ⟨_, _, Gcs.write_yields_of_refused hok hhas, written_of_refused hsound hbucket hhas⟩
    | false =>
      exact ⟨_, _, Gcs.write_yields_of_new hok hhas, written_of_put hsound hbucket hok.reads hhas⟩

theorem s3_write_cases (hsound : world.tree.Sound) (hbackend : store.backend = .s3)
    (hhonest : store.Honest world name) (source : Source) (replaces : Bool) :
    ∃ result world', (S3.write store name source replaces).Yields world result world'
      ∧ store.Written name source replaces world result world' := by
  have hbucket : store.backend ≠ .files := by
    rw [hbackend]
    simp
  cases hcontent : source.content with
  | error failure =>
    exact ⟨_, world, S3.write_yields_of_source hcontent, .failed failure world (.refl hsound)⟩
  | ok body =>
    cases hmet : world.met (.putObject store.location.host (store.key name) contentType
        (!replaces) (store.raw source)) with
    | some failure =>
      refine ⟨_, world, S3.write_yields_of_met hcontent hmet, ?_⟩
      unfold refused
      cases hpassed : replaces || failure.interrupts with
      | true => exact .failed failure world (.refl hsound)
      | false =>
        rw [if_neg Bool.false_ne_true]
        cases hcollides : Cloud.S3.collides failure with
        | error other => exact .failed other world (.refl hsound)
        | ok collision =>
          cases collision with
          | false => exact .failed failure world (.refl hsound)
          | true =>
            refine .skipped world (.refl hsound) (Bool.or_eq_false_iff.1 hpassed).1 (.inl ?_)
            rw [exists_has_bucket_iff hbucket]
            apply hhonest _ failure hmet
            unfold collides
            rw [hbackend]
            exact hcollides
    | none =>
      cases hhas : !replaces && world.bucket.has (store.key name) with
      | true =>
        exact ⟨_, _, S3.write_yields_of_refused hcontent hmet hhas,
          written_of_refused hsound hbucket hhas⟩
      | false =>
        exact ⟨_, _, S3.write_yields_of_new hcontent hmet hhas,
          written_of_put hsound hbucket hcontent hhas⟩

theorem write_cases (hsound : world.tree.Sound) (hhonest : store.Honest world name)
    (source : Source) (overwrite : Option Bool) :
    ∃ result world', (store.write name source overwrite).Yields world result world'
      ∧ store.Written name source (store.mayReplace overwrite) world result world' := by
  cases hbackend : store.backend with
  | files =>
    obtain ⟨result, tree, hwrite, hwrote⟩ :=
      Files.write_cases hsound store name source (store.mayReplace overwrite)
    refine ⟨result, _, write_yields ?_, written_of_wrote hsound hbackend hwrote⟩
    rw [hbackend]
    exact hwrite
  | gcs =>
    obtain ⟨result, world', hwrite, hwritten⟩ := gcs_write_cases hsound hbackend hhonest source
      (store.mayReplace overwrite)
    refine ⟨result, world', write_yields ?_, hwritten⟩
    rw [hbackend]
    exact hwrite
  | s3 =>
    obtain ⟨result, world', hwrite, hwritten⟩ := s3_write_cases hsound hbackend hhonest source
      (store.mayReplace overwrite)
    refine ⟨result, world', write_yields ?_, hwritten⟩
    rw [hbackend]
    exact hwrite

end Write

structure Fewer (world world' : World) : Prop where
  sound : world'.tree.Sound
  current_eq : world'.tree.current = world.tree.current
  file_of : ∀ place bytes, world'.tree.get? place = some (.file bytes) →
    world.tree.get? place = some (.file bytes)
  body_of : ∀ key bytes, world'.bucket.get? key = some bytes →
    world.bucket.get? key = some bytes

theorem fewer_erase (hsound : world.tree.Sound) {place : Files.Place}
    (hfile : world.tree.get? place = some (.file raw)) :
    Fewer world (world.withTree (world.tree.erase place)) := by
  have hne : place ≠ [] := by
    rintro rfl
    cases hfile
  refine ⟨?_, rfl, ?_, fun _ _ hget => hget⟩
  · apply hsound.erase hne
    unfold Files.Tree.hasDirectory
    rw [hfile]
  · intro other bytes hget
    by_cases hother : other = place
    · rw [World.withTree_tree, hother, Files.Tree.get?_erase_self _ hne] at hget
      cases hget
    · rw [World.withTree_tree, Files.Tree.get?_erase_of_ne _ hother] at hget
      exact hget

theorem fewer_remove (hsound : world.tree.Sound) (key : String) :
    Fewer world (world.withBucket (world.bucket.remove key)) := by
  refine ⟨hsound, rfl, fun _ _ hget => hget, ?_⟩
  intro other bytes hget
  by_cases hother : other = key
  · rw [World.withBucket_bucket, hother, Cloud.Bucket.get?_remove_self] at hget
    cases hget
  · rw [World.withBucket_bucket, Cloud.Bucket.get?_remove_of_ne _ hother] at hget
    exact hget

theorem delete_fewer (hsound : world.tree.Sound) (store : Store) (name : String) :
    ∃ result world', (store.delete name).Yields world result world' ∧ Fewer world world' := by
  have hrefl : Fewer world world :=
    ⟨hsound, rfl, fun _ _ hget => hget, fun _ _ hget => hget⟩
  -- Every kind of store removes its object or leaves everything.
  cases hbackend : store.backend with
  | files =>
    rcases Files.delete_cases hsound store name with ⟨failure, hdelete⟩ | ⟨hdelete, raw, hfile⟩
    · refine ⟨.error failure, world, delete_yields ?_, hrefl⟩
      rw [hbackend]
      exact hdelete
    · refine ⟨.ok (), _, delete_yields ?_, fewer_erase hsound hfile⟩
      rw [hbackend]
      exact hdelete
  | gcs =>
    rcases Gcs.delete_cases store name world with ⟨failure, hdelete⟩ | hdelete
    · refine ⟨.error failure, world, delete_yields ?_, hrefl⟩
      rw [hbackend]
      exact hdelete
    · refine ⟨.ok (), _, delete_yields ?_, fewer_remove hsound (store.key name)⟩
      rw [hbackend]
      exact hdelete
  | s3 =>
    rcases S3.delete_cases store name world with ⟨failure, hdelete⟩ | hdelete
    · refine ⟨.error failure, world, delete_yields ?_, hrefl⟩
      rw [hbackend]
      exact hdelete
    · refine ⟨.ok (), _, delete_yields ?_, fewer_remove hsound (store.key name)⟩
      rw [hbackend]
      exact hdelete

end Store

end Depot
