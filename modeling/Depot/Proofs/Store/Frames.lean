import Depot.Proofs.Store.Contents
import Depot.Proofs.Store.Peers

/-!
This module contains frames: what an operation leaves of the bodies that are kept in files and in
the bucket. Operations that only look leave all of them, writes and deletions all but one.
-/

namespace Depot

open Depot.Action

inductive Slot where
  | file (place : Files.Place)
  | blob (key : String)

namespace World

variable {world world' : World} {slot : Slot}

def body? (world : World) : Slot → Option ByteArray
  | .file place =>
    match world.tree.get? place with
    | some (.file raw) => some raw
    | _ => none
  | .blob key => world.bucket.get? key

theorem body?_file_iff {place : Files.Place} {raw : ByteArray} :
    world.body? (.file place) = some raw ↔ world.tree.get? place = some (.file raw) := by
  unfold body?
  dsimp only
  cases world.tree.get? place with
  | none => simp
  | some node => cases node <;> simp

theorem body?_withRecords (world : World) (records : Records) (slot : Slot) :
    (world.withRecords records).body? slot = world.body? slot := by
  cases slot with
  | file place => rfl
  | blob key => rfl

theorem body?_of_files (hfiles : ∀ place raw, world'.tree.get? place = some (.file raw)
      ↔ world.tree.get? place = some (.file raw))
    (hblobs : ∀ key, world'.bucket.get? key = world.bucket.get? key) (slot : Slot) :
    world'.body? slot = world.body? slot := by
  cases slot with
  | file place =>
    apply Option.ext
    intro raw
    rw [body?_file_iff, body?_file_iff, hfiles]
  | blob key => exact hblobs key

end World

namespace Store

variable {store : Store} {name : String} {source : Source} {replaces : Bool}
  {world world' : World} {slot : Slot} {result : Except Failure Bool} {body : ByteArray}

/-- What comes of writing to a slot: all bodies are kept, or all but the one that is stored. -/
inductive Framed (store : Store) (slot : Slot) (source : Source) (replaces : Bool)
    (world : World) : Except Failure Bool → World → Prop where
  | kept (result : Except Failure Bool) (world' : World) (hresult : result ≠ .ok true)
      (hsame : ∀ slot, world'.body? slot = world.body? slot) :
      Framed store slot source replaces world result world'
  | stored (body : ByteArray) (world' : World) (hcontent : source.content = .ok body)
      (hnew : replaces = false → world.body? slot = none)
      (hbody : world'.body? slot = some (store.raw source))
      (hoff : ∀ other, other ≠ slot → world'.body? other = world.body? other) :
      Framed store slot source replaces world (.ok true) world'

inductive Cleared (slot : Slot) (world : World) : Except Failure Unit → World → Prop where
  | kept (failure : Failure) (world' : World)
      (hsame : ∀ slot, world'.body? slot = world.body? slot) :
      Cleared slot world (.error failure) world'
  | removed (world' : World) (hbody : world'.body? slot = none)
      (hoff : ∀ other, other ≠ slot → world'.body? other = world.body? other) :
      Cleared slot world (.ok ()) world'

theorem Framed.congr {old new : World} (h : store.Framed slot source replaces world result world')
    (hold : ∀ slot, old.body? slot = world.body? slot)
    (hnew : ∀ slot, new.body? slot = world'.body? slot) :
    store.Framed slot source replaces old result new := by
  cases h with
  | kept _ _ hresult hsame =>
    exact .kept _ _ hresult fun slot => ((hnew slot).trans (hsame slot)).trans (hold slot).symm
  | stored body _ hcontent hempty hbody hoff =>
    refine .stored body _ hcontent (fun hkeeps => ?_) ((hnew slot).trans hbody) ?_
    · exact (hold slot).trans (hempty hkeeps)
    · intro other hother
      exact ((hnew other).trans (hoff other hother)).trans (hold other).symm

theorem Cleared.congr {old new : World} {result : Except Failure Unit}
    (h : Cleared slot world result world') (hold : ∀ slot, old.body? slot = world.body? slot)
    (hnew : ∀ slot, new.body? slot = world'.body? slot) : Cleared slot old result new := by
  cases h with
  | kept failure _ hsame =>
    exact .kept failure _ fun slot => ((hnew slot).trans (hsame slot)).trans (hold slot).symm
  | removed _ hbody hoff =>
    refine .removed _ ((hnew slot).trans hbody) ?_
    intro other hother
    exact ((hnew other).trans (hoff other hother)).trans (hold other).symm

section Buckets

theorem framed_put (hcontent : source.content = .ok body)
    (hnew : (!replaces && world.bucket.has (store.key name)) = false) :
    store.Framed (.blob (store.key name)) source replaces world (.ok true)
      (world.withBucket (world.bucket.put (store.key name) (store.raw source))) := by
  refine .stored body _ hcontent ?_ (Cloud.Bucket.get?_put_self _ _ _) ?_
  · rintro rfl
    unfold Cloud.Bucket.has at hnew
    rw [Bool.not_false, Bool.true_and, Option.isSome_eq_false_iff,
      Option.isNone_iff_eq_none] at hnew
    exact hnew
  · intro other hother
    cases other with
    | file place => rfl
    | blob key =>
      apply Cloud.Bucket.get?_put_of_ne
      rintro rfl
      exact hother rfl

theorem refused_ne_ok_true (collides : Failure → Except Failure Bool) (replaces : Bool)
    (failure : Failure) : refused collides replaces failure ≠ .ok true := by
  unfold refused
  cases replaces || failure.interrupts with
  | true => simp
  | false =>
    rw [if_neg Bool.false_ne_true]
    cases collides failure with
    | error other => simp
    | ok collision => cases collision <;> simp

theorem gcs_write_framed (store : Store) (name : String) (source : Source) (replaces : Bool)
    (world : World) :
    ∃ result world', (Gcs.write store name source replaces).Yields world result world'
      ∧ store.Framed (.blob (store.key name)) source replaces world result world'
      ∧ world'.tree = world.tree := by
  rcases Gcs.broken_or_sound store (store.key name) source (!replaces) world with
    ⟨failure, hbroken⟩ | ⟨body, hok⟩
  · exact ⟨_, world, Gcs.write_yields_of_broken store hbroken,
      .kept _ world (refused_ne_ok_true _ replaces failure) fun _ => rfl, rfl⟩
  · cases hhas : !replaces && world.bucket.has (store.key name) with
    | true =>
      exact ⟨_, world, Gcs.write_yields_of_refused hok hhas,
        .kept _ world (by simp) fun _ => rfl, rfl⟩
    | false => exact ⟨_, _, Gcs.write_yields_of_new hok hhas, framed_put hok.reads hhas, rfl⟩

theorem s3_write_framed (store : Store) (name : String) (source : Source) (replaces : Bool)
    (world : World) :
    ∃ result world', (S3.write store name source replaces).Yields world result world'
      ∧ store.Framed (.blob (store.key name)) source replaces world result world'
      ∧ world'.tree = world.tree := by
  cases hcontent : source.content with
  | error failure =>
    exact ⟨_, world, S3.write_yields_of_source hcontent,
      .kept _ world (by simp) fun _ => rfl, rfl⟩
  | ok body =>
    cases hmet : world.met (.putObject store.location.host (store.key name) contentType
        (!replaces) (store.raw source)) with
    | some failure =>
      exact ⟨_, world, S3.write_yields_of_met hcontent hmet,
        .kept _ world (refused_ne_ok_true _ replaces failure) fun _ => rfl, rfl⟩
    | none =>
      cases hhas : !replaces && world.bucket.has (store.key name) with
      | true =>
        exact ⟨_, world, S3.write_yields_of_refused hcontent hmet hhas,
          .kept _ world (by simp) fun _ => rfl, rfl⟩
      | false =>
        exact ⟨_, _, S3.write_yields_of_new hcontent hmet hhas, framed_put hcontent hhas, rfl⟩

theorem write_framed_of_bucket (h : store.backend ≠ .files) (name : String) (source : Source)
    (overwrite : Option Bool) (world : World) :
    ∃ result world', (store.write name source overwrite).Yields world result world'
      ∧ store.Framed (.blob (store.key name)) source (store.mayReplace overwrite) world result
          world'
      ∧ world'.tree = world.tree := by
  cases hbackend : store.backend with
  | files => exact absurd hbackend h
  | gcs =>
    obtain ⟨result, world', hwrite, hframed⟩ :=
      gcs_write_framed store name source (store.mayReplace overwrite) world
    refine ⟨result, world', write_yields ?_, hframed⟩
    rw [hbackend]
    exact hwrite
  | s3 =>
    obtain ⟨result, world', hwrite, hframed⟩ :=
      s3_write_framed store name source (store.mayReplace overwrite) world
    refine ⟨result, world', write_yields ?_, hframed⟩
    rw [hbackend]
    exact hwrite

theorem cleared_remove (key : String) (world : World) :
    Cleared (.blob key) world (.ok ()) (world.withBucket (world.bucket.remove key)) := by
  refine .removed _ (Cloud.Bucket.get?_remove_self _ _) ?_
  intro other hother
  cases other with
  | file place => rfl
  | blob key' =>
    apply Cloud.Bucket.get?_remove_of_ne
    rintro rfl
    exact hother rfl

theorem delete_cleared_of_bucket (h : store.backend ≠ .files) (name : String) (world : World) :
    ∃ result world', (store.delete name).Yields world result world'
      ∧ Cleared (.blob (store.key name)) world result world' ∧ world'.tree = world.tree := by
  cases hbackend : store.backend with
  | files => exact absurd hbackend h
  | gcs =>
    rcases Gcs.delete_cases store name world with ⟨failure, hdelete⟩ | hdelete
    · refine ⟨_, world, delete_yields ?_, .kept failure world fun _ => rfl, rfl⟩
      rw [hbackend]
      exact hdelete
    · refine ⟨_, _, delete_yields ?_, cleared_remove _ world, rfl⟩
      rw [hbackend]
      exact hdelete
  | s3 =>
    rcases S3.delete_cases store name world with ⟨failure, hdelete⟩ | hdelete
    · refine ⟨_, world, delete_yields ?_, .kept failure world fun _ => rfl, rfl⟩
      rw [hbackend]
      exact hdelete
    · refine ⟨_, _, delete_yields ?_, cleared_remove _ world, rfl⟩
      rw [hbackend]
      exact hdelete

end Buckets

section Looks

theorem objectPath_keeps (store : Store) (name : String) (world : World) :
    (Files.objectPath store name).Keeps world :=
  .of_yields (Files.objectPath_yields_checkedPath store name world)

theorem files_openRaw_keeps (store : Store) (name : String) (world : World) :
    (Files.openRaw store name).Keeps world := by
  unfold Files.openRaw
  refine (objectPath_keeps store name world).bind fun p => (Keeps.note _ _ _ world).bind fun _ => ?_
  refine Keeps.get_bind ?_ fun _ => rfl
  cases world.tree.content p with
  | ok bytes => exact .pure bytes world
  | error code => exact .throw _ world

theorem gcs_openRaw_keeps (store : Store) (name : String) (world : World) :
    (Gcs.openRaw store name).Keeps world := by
  unfold Gcs.openRaw
  refine (Keeps.note _ _ _ world).bind fun _ => ?_
  refine (Cloud.Gcs.getBlob_keeps _ world).bind fun found => ?_
  cases found with
  | none => exact .throw _ world
  | some bytes => exact (Cloud.record_keeps _ world).bind fun _ => .pure bytes world

theorem s3_raise_keeps {α : Type} (store : Store) (name : String) (failure : Failure)
    (world : World) : (S3.raise store name failure : Action α).Keeps world := by
  obtain ⟨other, hraise⟩ := S3.raise_cases (α := α) store name failure world
  exact .of_yields hraise

theorem s3_openRaw_keeps (store : Store) (name : String) (world : World) :
    (S3.openRaw store name).Keeps world := by
  unfold S3.openRaw
  refine (Keeps.note _ _ _ world).bind fun _ => ?_
  refine (Cloud.S3.getObject_keeps _ _ world).attempt.bind fun result => ?_
  cases result with
  | ok bytes => exact .pure bytes world
  | error failure => exact s3_raise_keeps store name failure world

theorem openRaw_keeps (store : Store) (name : String) (world : World) :
    (store.openRaw name).Keeps world := by
  unfold openRaw
  cases store.backend with
  | files => exact files_openRaw_keeps store name world
  | gcs => exact gcs_openRaw_keeps store name world
  | s3 => exact s3_openRaw_keeps store name world

theorem openReader_keeps (store : Store) (name : String) (world : World) :
    (store.openReader name).Keeps world := by
  unfold openReader tracedBy
  refine Keeps.traced ((openRaw_keeps store name world).bind fun bytes => ?_)
  refine (Keeps.of_yields (markStream_yields store false world)).bind fun _ => ?_
  exact Keeps.get_bind (.pure _ world) fun _ => rfl

theorem readBytes_keeps (store : Store) (name : String) (world : World) :
    (store.readBytes name).Keeps world := by
  unfold readBytes
  exact (openReader_keeps store name world).bind fun reader =>
    .of_yields (finish_yields store _ world)

theorem files_contains_keeps (store : Store) (name : String) (world : World) :
    (Files.contains store name).Keeps world := by
  unfold Files.contains
  refine (objectPath_keeps store name world).bind fun p => Keeps.get_bind ?_ fun _ => rfl
  cases world.tree.stat p with
  | ok node => cases node <;> exact .pure _ world
  | error code =>
    cases code with
    | noEntry => exact .pure false world
    | notDirectory => exact .pure false world
    | _ => exact .throw _ world

theorem gcs_contains_keeps (store : Store) (name : String) (world : World) :
    (Gcs.contains store name).Keeps world := by
  unfold Gcs.contains
  refine (Cloud.Gcs.getBlob_keeps _ world).attempt.bind fun result => ?_
  cases result with
  | ok body => exact .pure _ world
  | error failure =>
    dsimp only
    split
    · exact .pure _ world
    · exact .throw _ world

theorem s3_contains_keeps (store : Store) (name : String) (world : World) :
    (S3.contains store name).Keeps world := by
  unfold S3.contains
  refine (Cloud.S3.headObject_keeps _ _ world).attempt.bind fun result => ?_
  cases result with
  | ok done => exact .pure true world
  | error failure =>
    refine (Keeps.ofResult _ world).bind fun absent => ?_
    cases absent with
    | true => exact .pure false world
    | false => exact .throw failure world

theorem contains_keeps (store : Store) (name : String) (world : World) :
    (store.contains name).Keeps world := by
  unfold contains tracedBy
  apply Keeps.traced
  cases store.backend with
  | files => exact files_contains_keeps store name world
  | gcs => exact gcs_contains_keeps store name world
  | s3 => exact s3_contains_keeps store name world

end Looks

section Files

theorem framed_of_grows {tree : Files.Tree} (hresult : result ≠ .ok true)
    (hgrows : world.tree.Grows tree) :
    store.Framed slot source replaces world result (world.withTree tree) :=
  .kept result _ hresult (World.body?_of_files hgrows.get?_file_iff fun _ => rfl)

theorem framed_of_gains {grown tree : Files.Tree} {place : Files.Place}
    (hgrows : world.tree.Grows grown) (hcontent : source.content = .ok body)
    (hnew : replaces = false → grown.get? place = none)
    (hgains : Files.Tree.Gains grown place (store.raw source) tree) :
    store.Framed (.file place) source replaces world (.ok true) (world.withTree tree) := by
  have hgrown : ∀ slot, (world.withTree grown).body? slot = world.body? slot :=
    World.body?_of_files hgrows.get?_file_iff fun _ => rfl
  refine .stored body _ hcontent ?_ (World.body?_file_iff.2 hgains.at_eq) ?_
  · intro hkeeps
    rw [← hgrown]
    unfold World.body?
    dsimp only
    rw [World.withTree_tree, hnew hkeeps]
  · intro other hother
    rw [← hgrown]
    cases other with
    | blob key => rfl
    | file inner =>
      have hinner : inner ≠ place := by
        rintro rfl
        exact hother rfl
      unfold World.body?
      dsimp only
      rw [World.withTree_tree, World.withTree_tree, hgains.off_eq inner hinner]

theorem framed_of_wrote {tree : Files.Tree}
    (h : Files.Wrote store name source replaces world.tree result tree) :
    store.Framed (.file (Files.objectPlace store name)) source replaces world result
      (world.withTree tree) := by
  cases h with
  | failed failure _ hextends hwhy => exact framed_of_grows (by simp) hextends.grows
  | skipped body _ node hcontent hextends hwithin hkeeps hstat =>
    exact framed_of_grows (by simp) hextends.grows
  | stored body grown _ hextends hwithin hcontent hfile hnew hholds hstat =>
    exact framed_of_gains hextends.grows hcontent hnew hholds.toGains

theorem sound_of_wrote {tree tree' : Files.Tree}
    (h : Files.Wrote store name source replaces tree result tree') :
    tree'.Sound ∧ tree'.current = tree.current := by
  cases h with
  | failed failure _ hextends hwhy => exact ⟨hextends.sound, hextends.current_eq⟩
  | skipped body _ node hcontent hextends hwithin hkeeps hstat =>
    exact ⟨hextends.sound, hextends.current_eq⟩
  | stored body grown _ hextends hwithin hcontent hfile hnew hholds hstat =>
    exact ⟨hholds.sound, hholds.current_eq.trans hextends.current_eq⟩

theorem files_delete_cleared (hsound : world.tree.Sound) (store : Store) (name : String) :
    ∃ result world', (Files.delete store name).Yields world result world'
      ∧ Cleared (.file (Files.objectPlace store name)) world result world'
      ∧ Fewer world world' := by
  rcases Files.delete_cases hsound store name with ⟨failure, hdelete⟩ | ⟨hdelete, raw, hfile⟩
  · exact ⟨_, world, hdelete, .kept failure world fun _ => rfl,
      hsound, rfl, fun _ _ hget => hget, fun _ _ hget => hget⟩
  · have hne : Files.objectPlace store name ≠ [] := by
      intro hnil
      rw [hnil] at hfile
      cases hfile
    refine ⟨_, _, hdelete, .removed _ ?_ ?_, fewer_erase hsound hfile⟩
    · unfold World.body?
      dsimp only
      rw [World.withTree_tree, Files.Tree.get?_erase_self _ hne]
    · intro other hother
      cases other with
      | blob key => rfl
      | file place =>
        have hplace : place ≠ Files.objectPlace store name := by
          rintro rfl
          exact hother rfl
        unfold World.body?
        dsimp only
        rw [World.withTree_tree, Files.Tree.get?_erase_of_ne _ hplace]

end Files

end Store

end Depot
