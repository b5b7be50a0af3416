import Depot.Proofs.Tracing.Silence
import Depot.Store.Construction
import Depot.Store.Operations

/-!
This module contains what the operations of stores do where nothing is recorded: the same as
elsewhere. What they are made of leaves no spans.
-/

namespace Depot

open Depot.Action

namespace Cloud

theorem record_untraced (call : Call) (world : World) :
    (record call).Untraced (record call) world := by
  unfold record
  refine Untraced.bind (.modify ?_ ?_ ?_) fun _ world => Untraced.get_bind ?_
  · rfl
  · rfl
  · rfl
  · rw [World.silent_fault]
    split
    · split
      · exact .throw _ world
      · exact .pure _ world
    · exact .pure _ world

theorem store_untraced (key : String) (body : ByteArray) (onlyNew : Bool) (refusal : Failure)
    (world : World) :
    (store key body onlyNew refusal).Untraced (store key body onlyNew refusal) world := by
  unfold store
  refine Untraced.get_bind ?_
  rw [World.silent_bucket]
  split
  · exact .throw_bind refusal
  · exact .set rfl rfl rfl

namespace Gcs

theorem commit_untraced (key cacheControl : String) (body : ByteArray) (onlyNew : Bool)
    (world : World) :
    (commit key cacheControl body onlyNew).Untraced (commit key cacheControl body onlyNew) world :=
  (record_untraced _ world).bind fun _ world => store_untraced key body onlyNew _ world

theorem getBlob_untraced (key : String) (world : World) :
    (getBlob key).Untraced (getBlob key) world :=
  (record_untraced _ world).bind fun _ world => .get_bind (.pure _ world)

theorem deleteBlob_untraced (key : String) (world : World) :
    (deleteBlob key).Untraced (deleteBlob key) world := by
  unfold deleteBlob
  refine (record_untraced _ world).bind fun _ world => Untraced.get_bind ?_
  rw [World.silent_bucket]
  split
  · exact .throw_bind _
  · exact .set rfl rfl rfl

end Gcs

namespace S3

theorem putObject_untraced (bucket key contentType : String) (body : ByteArray) (onlyNew : Bool)
    (world : World) :
    (putObject bucket key contentType body onlyNew).Untraced
      (putObject bucket key contentType body onlyNew) world :=
  (record_untraced _ world).bind fun _ world => store_untraced key body onlyNew _ world

theorem getObject_untraced (bucket key : String) (world : World) :
    (getObject bucket key).Untraced (getObject bucket key) world := by
  unfold getObject
  refine (record_untraced _ world).bind fun _ world => Untraced.get_bind ?_
  rw [World.silent_bucket]
  split
  · exact .pure _ world
  · exact .throw _ world

theorem headObject_untraced (bucket key : String) (world : World) :
    (headObject bucket key).Untraced (headObject bucket key) world := by
  unfold headObject
  refine (record_untraced _ world).bind fun _ world => Untraced.get_bind ?_
  rw [World.silent_bucket]
  split
  · exact .throw _ world
  · exact .pure _ world

theorem deleteObject_untraced (bucket key : String) (world : World) :
    (deleteObject bucket key).Untraced (deleteObject bucket key) world :=
  (record_untraced _ world).bind fun _ _ => .modify rfl rfl rfl

end S3

end Cloud

namespace Store

theorem compress_untraced (store : Store) (source : Source) (world : World) :
    (store.compress source).Untraced (store.compress source) world := by
  unfold compress
  dsimp only
  split
  · exact .throw _ world
  · exact .pure _ world

namespace Gcs

theorem write_untraced (store : Store) (name : String) (source : Source) (overwrite : Bool)
    (world : World) :
    (write store name source overwrite).Untraced (write store name source overwrite) world := by
  refine (conditionalWrite_untraced (fun world => ?_) _ _ _).bind fun written world => ?_
  · refine (Cloud.record_untraced _ world).bind fun _ world => ?_
    exact (compress_untraced store source world).bind fun body world =>
      Cloud.Gcs.commit_untraced _ _ body _ world
  · cases written with
    | true => exact (Untraced.note _ _ _ world).bind fun _ world => .pure true world
    | false => exact .pure false world

theorem openRaw_untraced (store : Store) (name : String) (world : World) :
    (openRaw store name).Untraced (openRaw store name) world := by
  refine (Untraced.note _ _ _ world).bind fun _ world => ?_
  refine (Cloud.Gcs.getBlob_untraced _ world).bind fun found world => ?_
  cases found with
  | none => exact .throw _ world
  | some bytes => exact (Cloud.record_untraced _ world).bind fun _ world => .pure bytes world

theorem delete_untraced (store : Store) (name : String) (world : World) :
    (delete store name).Untraced (delete store name) world := by
  refine (Cloud.Gcs.deleteBlob_untraced _ world).attempt.bind fun result world => ?_
  cases result with
  | ok _ => exact .note _ _ _ world
  | error failure =>
    dsimp only
    split
    · exact .throw _ world
    · exact .throw _ world

theorem contains_untraced (store : Store) (name : String) (world : World) :
    (contains store name).Untraced (contains store name) world := by
  refine (Cloud.Gcs.getBlob_untraced _ world).attempt.bind fun result world => ?_
  cases result with
  | ok body => exact .pure _ world
  | error failure =>
    dsimp only
    split
    · exact .pure _ world
    · exact .throw _ world

end Gcs

namespace S3

theorem write_untraced (store : Store) (name : String) (source : Source) (overwrite : Bool)
    (world : World) :
    (write store name source overwrite).Untraced (write store name source overwrite) world := by
  refine (compress_untraced store source world).bind fun body world => ?_
  refine (conditionalWrite_untraced
    (fun world => Cloud.S3.putObject_untraced _ _ _ body _ world) _ _ _).bind fun written world => ?_
  cases written with
  | true => exact (Untraced.note _ _ _ world).bind fun _ world => .pure true world
  | false => exact .pure false world

theorem raise_untraced {α : Type} (store : Store) (name : String) (failure : Failure)
    (world : World) :
    (raise store name failure : Action α).Untraced (raise store name failure) world := by
  refine (Untraced.ofResult _ world).bind fun missing world => ?_
  cases missing with
  | true => exact .throw _ world
  | false => exact .throw _ world

theorem openRaw_untraced (store : Store) (name : String) (world : World) :
    (openRaw store name).Untraced (openRaw store name) world := by
  refine (Untraced.note _ _ _ world).bind fun _ world => ?_
  refine (Cloud.S3.getObject_untraced _ _ world).attempt.bind fun result world => ?_
  cases result with
  | ok bytes => exact .pure bytes world
  | error failure => exact raise_untraced store name failure world

theorem delete_untraced (store : Store) (name : String) (world : World) :
    (delete store name).Untraced (delete store name) world := by
  refine (Cloud.S3.headObject_untraced _ _ world).attempt.bind fun result world => ?_
  cases result with
  | error failure => exact raise_untraced store name failure world
  | ok _ =>
    exact (Cloud.S3.deleteObject_untraced _ _ world).bind fun _ world => .note _ _ _ world

theorem contains_untraced (store : Store) (name : String) (world : World) :
    (contains store name).Untraced (contains store name) world := by
  refine (Cloud.S3.headObject_untraced _ _ world).attempt.bind fun result world => ?_
  cases result with
  | ok _ => exact .pure true world
  | error failure =>
    refine (Untraced.ofResult _ world).bind fun missing world => ?_
    cases missing with
    | true => exact .pure false world
    | false => exact .throw _ world

end S3

namespace Files

open Depot.Files

theorem fail_untraced {α : Type} (error : SystemError) (world : World) :
    (fail error : Action α).Untraced (fail error) world :=
  .throw _ world

theorem change_untraced (act : Tree → Except SystemErrorCode Tree)
    (error : SystemErrorCode → SystemError) (world : World) :
    (change act error).Untraced (change act error) world := by
  refine Untraced.get_bind ?_
  rw [World.silent_tree]
  split
  · exact .set rfl rfl rfl
  · exact fail_untraced _ world

theorem objectPath_untraced (store : Store) (name : String) (world : World) :
    (objectPath store name).Untraced (objectPath store name) world := by
  refine Untraced.get_bind ?_
  rw [World.silent_tree]
  refine (Untraced.ofResult _ world).bind fun place world => ?_
  refine (Untraced.ofResult _ world).bind fun root world => ?_
  split
  · exact .pure _ world
  · exact .throw _ world

theorem makeDirectories_untraced (p : Pathname) (world : World) :
    (makeDirectories p).Untraced (makeDirectories p) world := by
  refine Untraced.get_bind ?_
  rw [World.silent_tree]
  refine Untraced.bind (.set rfl rfl rfl) fun _ world => ?_
  split
  · exact .pure _ world
  · exact fail_untraced _ world

theorem fillFile_untraced (p : Pathname) (source : Source) (scheme : Codec.Scheme)
    (world : World) : (fillFile p source scheme).Untraced (fillFile p source scheme) world := by
  refine (change_untraced _ _ world).bind fun _ world => ?_
  dsimp only
  split
  · exact .throw _ world
  · exact change_untraced _ _ world

theorem discard_untraced (staging : Pathname) (world : World) :
    (discard staging).Untraced (discard staging) world := by
  refine Untraced.get_bind ?_
  rw [World.silent_tree]
  split
  · exact .set rfl rfl rfl
  · exact .pure _ world
  · exact .note _ _ _ world

theorem publish_untraced (staging target : Pathname) (overwrite : Bool) (world : World) :
    (publish staging target overwrite).Untraced (publish staging target overwrite) world := by
  unfold publish
  split
  · exact change_untraced _ _ world
  · exact change_untraced _ _ world

theorem write_untraced (store : Store) (name : String) (source : Source) (overwrite : Bool)
    (world : World) :
    (write store name source overwrite).Untraced (write store name source overwrite) world := by
  refine (objectPath_untraced store name world).bind fun target world => ?_
  refine (makeDirectories_untraced _ world).bind fun _ world => Untraced.get_bind ?_
  rw [World.silent_tree]
  refine Untraced.bind (.andFinally ?_ fun world => discard_untraced _ world)
    fun written world => ?_
  · refine (fillFile_untraced _ source _ world).bind fun _ world => ?_
    exact conditionalWrite_untraced (fun world => publish_untraced _ _ _ world) _ _ _
  · cases written with
    | true => exact (Untraced.note _ _ _ world).bind fun _ world => .pure true world
    | false => exact .pure false world

theorem openRaw_untraced (store : Store) (name : String) (world : World) :
    (openRaw store name).Untraced (openRaw store name) world := by
  refine (objectPath_untraced store name world).bind fun p world => ?_
  refine (Untraced.note _ _ _ world).bind fun _ world => Untraced.get_bind ?_
  rw [World.silent_tree]
  split
  · exact .pure _ world
  · exact .throw _ world

theorem delete_untraced (store : Store) (name : String) (world : World) :
    (delete store name).Untraced (delete store name) world := by
  refine (objectPath_untraced store name world).bind fun p world => Untraced.get_bind ?_
  rw [World.silent_tree]
  split
  · exact fail_untraced _ world
  · exact .throw _ world
  · split
    · exact .throw _ world
    · exact Untraced.bind (.set rfl rfl rfl) fun _ world => .note _ _ _ world

theorem contains_untraced (store : Store) (name : String) (world : World) :
    (contains store name).Untraced (contains store name) world := by
  refine (objectPath_untraced store name world).bind fun p world => Untraced.get_bind ?_
  rw [World.silent_tree]
  split
  · exact .pure _ world
  · exact .pure _ world
  · exact .pure _ world
  · exact .pure _ world
  · exact fail_untraced _ world

end Files

theorem openRaw_untraced (store : Store) (name : String) (world : World) :
    (store.openRaw name).Untraced (store.openRaw name) world := by
  unfold openRaw
  cases store.backend with
  | files => exact Files.openRaw_untraced store name world
  | gcs => exact Gcs.openRaw_untraced store name world
  | s3 => exact S3.openRaw_untraced store name world

theorem markStream_untraced (store : Store) (closed : Bool) (world : World) :
    (store.markStream closed).Untraced (store.markStream closed) world := by
  unfold markStream
  cases store.backend with
  | files => exact .pure _ world
  | gcs => exact .modify rfl rfl rfl
  | s3 => exact .modify rfl rfl rfl

theorem namesOf_untraced (walk : Walk) (world : World) :
    (namesOf walk).Untraced (namesOf walk) world := by
  unfold namesOf
  split
  · exact .pure _ world
  · exact .throw _ world

theorem readLocal_untraced (p : Depot.Files.Pathname) (world : World) :
    (readLocal p).Untraced (readLocal p) world := by
  unfold readLocal
  split
  · exact .throw _ world
  · refine Untraced.get_bind ?_
    rw [World.silent_tree]
    split
    · exact .pure _ world
    · exact Files.fail_untraced _ world

theorem perform_readLocal {p : Depot.Files.Pathname} {world world' : World}
    {result : Except Failure ByteArray} (h : (readLocal p).perform world = (result, world')) :
    world' = world := by
  have hsame : ((readLocal p).perform world).2 = world := by
    unfold readLocal
    split
    · rfl
    · rw [perform_get_bind]
      split
      · rfl
      · rfl
  rw [h] at hsame
  exact hsame

section Opening

variable (store : Store) (name : String) (world : World)

/-- The part of opening an object that does not depend on whether a journal is kept. -/
def openBody : Action Reader := do
  let bytes ← store.openRaw name
  store.markStream false
  return Reader.ofBytes store.compression bytes

def handed (reader : Reader) : Reader :=
  if world.debug then reader.wrap { announces := some name } else reader

theorem openBody_untraced : (store.openBody name).Untraced (store.openBody name) world :=
  (openRaw_untraced store name world).bind fun _ world =>
    (markStream_untraced store false world).bind fun _ world => .pure _ world

/-- Opening an object as if no journal were kept. -/
def tracedBody : Action Reader :=
  store.tracedBy .openObject (some name) (fun _ => []) (store.openBody name)

theorem perform_openReader :
    (store.openReader name).perform world
      =
    (((store.tracedBody name).perform world).1.map (handed name world),
      ((store.tracedBody name).perform world).2) := by
  have hdebug : ((store.openBody name).perform world).2.debug = world.debug :=
    (World.Observers.mk.inj (openBody_untraced store name world).observers_eq).2.1
  have hinner : (store.openBody name >>= fun reader => get >>= fun (world : World) =>
        pure (handed name world reader) : Action Reader).perform world
      = (((store.openBody name).perform world).1.map (handed name world),
        ((store.openBody name).perform world).2) := by
    rcases hperform : (store.openBody name).perform world with ⟨result, world'⟩
    rw [hperform] at hdebug
    cases result with
    | error failure => exact perform_bind_of_error hperform
    | ok reader =>
      have hhanded : handed name world' reader = handed name world reader := by
        unfold handed
        rw [hdebug]
      rw [perform_bind_of_ok hperform, perform_get_bind, hhanded]
      rfl
  have hopen : store.openReader name = store.tracedBy .openObject (some name) (fun _ => [])
      (store.openBody name >>= fun reader => get >>= fun (world : World) =>
        pure (handed name world reader)) := by
    unfold openReader openBody
    simp only [bind_assoc, pure_bind]
    rfl
  rw [hopen]
  unfold tracedBody tracedBy
  cases hrecords : world.records with
  | true =>
    rw [perform_traced hrecords, perform_traced hrecords, hinner]
    cases ((store.openBody name).perform world).1 with
    | error failure => rfl
    | ok reader => rfl
  | false =>
    rw [perform_traced_of_unrecorded hrecords, perform_traced_of_unrecorded hrecords, hinner]

end Opening

end Store

end Depot
