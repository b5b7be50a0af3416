import Depot.Proofs.Alike
import Depot.Proofs.Store.Cloud
import Depot.Proofs.Store.Objects

/-!
This module contains peers: stores that keep their objects in one place and in one form. Where the
names of two peers stand for one key, every operation on them comes to the same.
-/

namespace Depot

open Depot.Action Cloud

namespace Cloud

variable {world : World} {key : String}

theorem record_keeps (call : Call) (world : World) : (record call).Keeps world :=
  .of_yields (record_yields call world)

theorem record_settles (call : Call) (world : World) : (record call).Settles world :=
  (record_keeps call world).settles

theorem store_settles (key : String) (body : ByteArray) (onlyNew : Bool) (refusal : Failure)
    (world : World) : (store key body onlyNew refusal).Settles world := by
  cases h : onlyNew && world.bucket.has key with
  | true => exact .of_yields (store_yields_of_refused h)
  | false => exact .of_yields (store_yields_of_new h)

theorem Gcs.getBlob_keeps (key : String) (world : World) : (Gcs.getBlob key).Keeps world := by
  unfold Gcs.getBlob
  refine (record_keeps _ world).bind fun _ => ?_
  exact Keeps.get_bind (.pure _ world) fun _ => rfl

theorem Gcs.deleteBlob_settles (key : String) (world : World) :
    (Gcs.deleteBlob key).Settles world := by
  unfold Gcs.deleteBlob
  refine (record_settles _ world).bind fun _ world' => ?_
  cases hhas : world'.bucket.has key with
  | true =>
    refine ⟨.ok (), world'.withBucket (world'.bucket.remove key), Yields.get_bind fun records => ?_⟩
    simp only [World.withRecords_bucket, hhas]
    exact .set ⟨records, rfl⟩
  | false =>
    refine ⟨.error (failure "NotFound" "no such object"), world', Yields.get_bind fun records => ?_⟩
    simp only [World.withRecords_bucket, hhas]
    exact (Yields.throw _ world').bind_error

theorem S3.putObject_settles (bucket key contentType : String) (body : ByteArray) (onlyNew : Bool)
    (world : World) : (S3.putObject bucket key contentType body onlyNew).Settles world := by
  unfold S3.putObject
  exact (record_settles _ world).bind fun _ world' => store_settles _ _ _ _ world'

theorem S3.getObject_keeps (bucket key : String) (world : World) :
    (S3.getObject bucket key).Keeps world := by
  unfold S3.getObject
  refine (record_keeps _ world).bind fun _ => ?_
  refine Keeps.get_bind ?_ fun _ => rfl
  cases world.bucket.get? key with
  | some body => exact .pure body world
  | none => exact .throw _ world

theorem S3.headObject_keeps (bucket key : String) (world : World) :
    (S3.headObject bucket key).Keeps world := by
  unfold S3.headObject
  refine (record_keeps _ world).bind fun _ => ?_
  refine Keeps.get_bind ?_ fun _ => rfl
  cases world.bucket.has key with
  | true => exact .pure _ world
  | false => exact .throw _ world

theorem S3.deleteObject_settles (bucket key : String) (world : World) :
    (S3.deleteObject bucket key).Settles world := by
  unfold S3.deleteObject
  refine (record_settles _ world).bind fun _ world' => ?_
  refine ⟨.ok (), world'.withBucket (world'.bucket.remove key), Yields.modify fun records => ?_⟩
  exact ⟨records, rfl⟩

end Cloud

namespace Store

variable {store peer : Store} {name other : String} {source : Source} {replaces : Bool}
  {world : World}

/-- Whether two stores keep their objects in one place and in one form. -/
structure Peers (store peer : Store) : Prop where
  backend_eq : peer.backend = store.backend
  host_eq : peer.location.host = store.location.host
  compression_eq : peer.compression = store.compression
  overwrite_eq : peer.overwrite = store.overwrite

theorem throw_notFound {α : Type} (store peer : Store) (name other : String)
    (cause : Option Reason) (world : World) :
    Alike (throw (store.notFound name cause) : Action α) (throw (peer.notFound other cause))
      world := by
  apply Alike.throw
  rfl

theorem compress_settles (store : Store) (source : Source) (world : World) :
    (store.compress source).Settles world := by
  cases h : source.content with
  | error failure => exact .of_yields (compress_yields_of_error h world)
  | ok body => exact .of_yields (compress_yields_of_ok h world)

theorem written_settles {act : Action Bool} {level : Level} {topic : Topic} {message : String}
    (h : act.Settles world) :
    (do
      let written ← act
      if written then note level topic message
      return written : Action Bool).Settles world := by
  obtain ⟨result, world', hact⟩ := h
  exact .of_yields (noted_yields hact)

namespace Peers

theorem compress_eq (h : Peers store peer) (source : Source) :
    peer.compress source = store.compress source := by
  unfold compress
  rw [h.compression_eq]

section Buckets

variable (h : Peers store peer) (hkey : peer.key other = store.key name)

include h hkey

theorem gcs_write (source : Source) (replaces : Bool) (world : World) :
    (Gcs.write store name source replaces).Alike (Gcs.write peer other source replaces) world := by
  have hsame : Gcs.write peer other source replaces = Gcs.write store name source replaces := by
    unfold Gcs.write
    rw [hkey, h.compress_eq]
  rw [hsame]
  apply Alike.of_settles
  unfold Gcs.write
  refine written_settles (conditionalWrite_settles ?_ _ _ _)
  refine (record_settles _ world).bind fun _ world₁ => ?_
  refine (compress_settles store source world₁).bind fun body world₂ => ?_
  exact (record_settles _ world₂).bind fun _ world₃ => store_settles _ _ _ _ world₃

omit h in
theorem gcs_openRaw (world : World) :
    (Gcs.openRaw store name).Alike (Gcs.openRaw peer other) world := by
  unfold Gcs.openRaw
  rw [hkey]
  refine (Alike.note _ _ _ _ world).bind fun _ world₁ => ?_
  refine (Alike.of_settles (Gcs.getBlob_keeps _ world₁).settles).bind fun body world₂ => ?_
  cases body with
  | none => exact throw_notFound _ _ _ _ _ world₂
  | some bytes =>
    refine (Alike.of_settles (record_settles _ world₂)).bind fun _ world₃ => ?_
    exact .of_settles (.pure bytes world₃)

omit h in
theorem gcs_delete (world : World) :
    (Gcs.delete store name).Alike (Gcs.delete peer other) world := by
  unfold Gcs.delete
  rw [hkey]
  refine (Alike.of_settles (Gcs.deleteBlob_settles _ world).attempt).bind fun result world₁ => ?_
  cases result with
  | ok done => exact .note _ _ _ _ world₁
  | error failure =>
    dsimp only
    split
    · exact throw_notFound _ _ _ _ _ world₁
    · exact .throw rfl world₁

omit h in
theorem gcs_contains (world : World) :
    (Gcs.contains store name).Alike (Gcs.contains peer other) world := by
  unfold Gcs.contains
  rw [hkey]
  refine (Alike.of_settles (Gcs.getBlob_keeps _ world).attempt.settles).bind fun result world₁ => ?_
  apply Alike.of_settles
  cases result with
  | ok body => exact .pure _ world₁
  | error failure =>
    dsimp only
    split
    · exact .pure _ world₁
    · exact .throw _ world₁

theorem s3_write (source : Source) (replaces : Bool) (world : World) :
    (S3.write store name source replaces).Alike (S3.write peer other source replaces) world := by
  have hsame : S3.write peer other source replaces = S3.write store name source replaces := by
    unfold S3.write
    rw [hkey, h.compress_eq, h.host_eq]
  rw [hsame]
  apply Alike.of_settles
  unfold S3.write
  refine (compress_settles store source world).bind fun body world₁ => ?_
  exact written_settles (conditionalWrite_settles (S3.putObject_settles _ _ _ _ _ world₁) _ _ _)

omit h hkey in
theorem s3_raise {α : Type} (failure : Failure) (world : World) :
    (S3.raise store name failure : Action α).Alike (S3.raise peer other failure) world := by
  unfold S3.raise
  refine Alike.bind (.of_settles (.of_yields (.ofResult _ world))) fun absent world₁ => ?_
  cases absent with
  | true => exact throw_notFound _ _ _ _ _ world₁
  | false => exact .throw rfl world₁

theorem s3_openRaw (world : World) :
    (S3.openRaw store name).Alike (S3.openRaw peer other) world := by
  unfold S3.openRaw
  rw [hkey, h.host_eq]
  refine (Alike.note _ _ _ _ world).bind fun _ world₁ => ?_
  refine (Alike.of_settles (S3.getObject_keeps _ _ world₁).attempt.settles).bind
    fun result world₂ => ?_
  cases result with
  | ok bytes => exact .of_settles (.pure bytes world₂)
  | error failure => exact s3_raise failure world₂

theorem s3_delete (world : World) :
    (S3.delete store name).Alike (S3.delete peer other) world := by
  unfold S3.delete
  rw [hkey, h.host_eq]
  refine (Alike.of_settles (S3.headObject_keeps _ _ world).attempt.settles).bind
    fun result world₁ => ?_
  cases result with
  | error failure => exact s3_raise failure world₁
  | ok done =>
    refine (Alike.of_settles (S3.deleteObject_settles _ _ world₁)).bind fun _ world₂ => ?_
    exact .note _ _ _ _ world₂

theorem s3_contains (world : World) :
    (S3.contains store name).Alike (S3.contains peer other) world := by
  unfold S3.contains
  rw [hkey, h.host_eq]
  refine (Alike.of_settles (S3.headObject_keeps _ _ world).attempt.settles).bind
    fun result world₁ => ?_
  apply Alike.of_settles
  cases result with
  | ok done => exact .pure true world₁
  | error failure =>
    refine Settles.bind (.of_yields (.ofResult _ world₁)) fun absent world₂ => ?_
    cases absent with
    | true => exact .pure false world₂
    | false => exact .throw _ world₂

end Buckets

end Peers

namespace Files

open Depot.Files

variable {p : Pathname} {act : Tree → Except SystemErrorCode Tree}
  {report : SystemErrorCode → SystemError}

theorem change_settles (act : Tree → Except SystemErrorCode Tree)
    (report : SystemErrorCode → SystemError) (world : World) :
    (change act report).Settles world := by
  cases h : act world.tree with
  | ok tree => exact .of_yields (change_yields_of_ok h)
  | error code => exact .of_yields (change_yields_of_error h)

theorem fillFile_settles (p : Pathname) (source : Source) (scheme : Codec.Scheme) (world : World) :
    (fillFile p source scheme).Settles world := by
  unfold fillFile
  refine (change_settles _ _ world).bind fun _ world₁ => ?_
  dsimp only
  cases (compressedCopy source {} scheme).outcome with
  | error failure => exact .throw failure world₁
  | ok total => exact change_settles _ _ world₁

theorem publish_settles (staging target : Pathname) (overwrite : Bool) (world : World) :
    (publish staging target overwrite).Settles world := by
  unfold publish
  split
  · exact change_settles _ _ world
  · exact change_settles _ _ world

theorem stage_settles (store : Store) (key : String) (source : Source) (overwrite : Bool)
    (staging target : Pathname) (world : World) :
    (stage store key source overwrite staging target).Settles world := by
  unfold stage
  refine Settles.andFinally ?_ fun world' => .of_yields (discard_yields staging world')
  refine (fillFile_settles _ _ _ world).bind fun _ world₁ => ?_
  exact conditionalWrite_settles (publish_settles _ _ _ world₁) _ _ _

theorem objectFailure_unnamed (store peer : Store) (name other : String) (p : Pathname)
    (code : SystemErrorCode) :
    (objectFailure peer other p code).unnamed = (objectFailure store name p code).unnamed := by
  unfold objectFailure
  dsimp only
  split
  · rfl
  · rfl

theorem remove_alike (store peer : Store) (name other : String) (p : Pathname) (world : World) :
    (remove store name p).Alike (remove peer other p) world := by
  cases hdir : world.tree.isDirectory p with
  | error code =>
    exact .of_yields (remove_yields_of_unknown hdir store name)
      (remove_yields_of_unknown hdir peer other) rfl
  | ok isDir =>
    cases isDir with
    | true =>
      exact .of_yields (remove_yields_of_directory hdir store name)
        (remove_yields_of_directory hdir peer other) rfl
    | false =>
      cases hunlink : world.tree.unlink p with
      | error code =>
        exact .of_yields (remove_yields_of_error hdir hunlink store name)
          (remove_yields_of_error hdir hunlink peer other)
          (congrArg Except.error (objectFailure_unnamed store peer name other p code))
      | ok tree =>
        exact .of_yields (remove_yields_of_unlink hdir hunlink store name)
          (remove_yields_of_unlink hdir hunlink peer other) rfl

end Files

namespace Peers

section Files

variable (h : Peers store peer) (hkey : peer.key other = store.key name)
  (hpath : (Files.objectPath store name).Alike (Files.objectPath peer other) world)

include hpath

theorem files_openRaw :
    (Files.openRaw store name).Alike (Files.openRaw peer other) world := by
  unfold Files.openRaw
  refine hpath.bind fun p world₁ => (Alike.note _ _ _ _ world₁).bind fun _ world₂ => ?_
  refine Alike.get_bind ?_ (fun _ => rfl) (fun _ => rfl)
  cases world₂.tree.content p with
  | ok bytes => exact .of_settles (.pure bytes world₂)
  | error code => exact .throw (Files.objectFailure_unnamed store peer name other p code) world₂

theorem files_contains :
    (Files.contains store name).Alike (Files.contains peer other) world := by
  unfold Files.contains
  refine hpath.bind fun p world₁ => .of_settles ?_
  refine Settles.get_bind ?_ fun _ => rfl
  cases world₁.tree.stat p with
  | ok node => cases node <;> exact .pure _ world₁
  | error code =>
    cases code with
    | noEntry => exact .pure false world₁
    | notDirectory => exact .pure false world₁
    | _ => exact .throw _ world₁

theorem files_delete :
    (Files.delete store name).Alike (Files.delete peer other) world := by
  rw [Files.delete_eq, Files.delete_eq]
  exact hpath.bind fun p world₁ => Files.remove_alike store peer name other p world₁

include h hkey

theorem files_write (source : Source) (replaces : Bool) :
    (Files.write store name source replaces).Alike (Files.write peer other source replaces)
      world := by
  have hstage : ∀ staging target,
      Files.stage peer (peer.key other) source replaces staging target
        = Files.stage store (store.key name) source replaces staging target := by
    intro staging target
    unfold Files.stage
    rw [hkey, h.compression_eq]
  rw [Files.write_eq, Files.write_eq]
  refine hpath.bind fun target world₁ => ?_
  refine Alike.bind (.of_settles (.of_yields (Files.makeDirectories_yields _ world₁)))
    fun _ world₂ => ?_
  refine Alike.get_bind ?_ (fun _ => rfl) (fun _ => rfl)
  dsimp only
  rw [hstage]
  refine Alike.bind (.of_settles (Files.stage_settles _ _ _ _ _ _ world₂)) fun written world₃ => ?_
  cases written with
  | true =>
    simp only [if_true]
    exact (Alike.note _ _ _ _ world₃).bind fun _ world₄ => .of_settles (.pure true world₄)
  | false =>
    simp only [if_neg Bool.false_ne_true]
    exact .of_settles (.pure false world₃)

end Files

section Operations

variable (h : Peers store peer) (hkey : peer.key other = store.key name)
  (hpath : store.backend = .files →
    (Files.objectPath store name).Alike (Files.objectPath peer other) world)

include h hkey hpath

theorem write (source : Source) (overwrite : Option Bool) :
    (store.write name source overwrite).Alike (peer.write other source overwrite) world := by
  have hreplaces : peer.mayReplace overwrite = store.mayReplace overwrite := by
    unfold mayReplace
    rw [h.overwrite_eq]
  unfold Store.write tracedBy
  apply Alike.traced
  rw [hreplaces, h.backend_eq]
  cases hbackend : store.backend with
  | files => exact h.files_write hkey (hpath hbackend) source _
  | gcs => exact h.gcs_write hkey source _ world
  | s3 => exact h.s3_write hkey source _ world

theorem openRaw : (store.openRaw name).Alike (peer.openRaw other) world := by
  unfold Store.openRaw
  rw [h.backend_eq]
  cases hbackend : store.backend with
  | files => exact files_openRaw (hpath hbackend)
  | gcs => exact gcs_openRaw hkey world
  | s3 => exact h.s3_openRaw hkey world

theorem readBytes : (store.readBytes name).Alike (peer.readBytes other) world := by
  obtain ⟨result, result', world', hraw, hraw', hsame⟩ := h.openRaw hkey hpath
  cases result with
  | error failure =>
    cases result' with
    | error failure' =>
      have hunnamed : failure'.unnamed = failure.unnamed := Except.error.inj hsame
      exact .of_yields (readBytes_yields_of_error hraw) (readBytes_yields_of_error hraw')
        (congrArg Except.error hunnamed)
    | ok raw => cases hsame
  | ok raw =>
    cases result' with
    | error failure' => cases hsame
    | ok raw' =>
      have hbytes : raw' = raw := Except.ok.inj hsame
      subst hbytes
      refine .of_yields (readBytes_yields_of_ok hraw) (readBytes_yields_of_ok hraw') ?_
      rw [h.compression_eq]

theorem contains : (store.contains name).Alike (peer.contains other) world := by
  unfold Store.contains tracedBy
  apply Alike.traced
  rw [h.backend_eq]
  cases hbackend : store.backend with
  | files => exact files_contains (hpath hbackend)
  | gcs => exact gcs_contains hkey world
  | s3 => exact h.s3_contains hkey world

theorem delete : (store.delete name).Alike (peer.delete other) world := by
  unfold Store.delete tracedBy
  apply Alike.traced
  rw [h.backend_eq]
  cases hbackend : store.backend with
  | files => exact files_delete (hpath hbackend)
  | gcs => exact gcs_delete hkey world
  | s3 => exact h.s3_delete hkey world

end Operations

end Peers

end Store

end Depot
