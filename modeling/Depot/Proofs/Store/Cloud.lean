import Depot.Proofs.Store.Operations

/-!
This module contains the theory of stores in buckets: what each operation gives and leaves, for a
provider some of whose calls may fail.
-/

namespace Depot

open Depot.Action Cloud

namespace World

def met (world : World) (call : Call) : Option Failure :=
  match world.fault with
  | some (name, failure) => if name = call.name then some failure else none
  | none => none

@[simp]
theorem met_of_fault_none {world : World} (h : world.fault = none) (call : Call) :
    world.met call = none := by
  unfold met
  rw [h]

end World

namespace Cloud

variable {call : Call} {world : World} {key : String} {body : ByteArray} {onlyNew : Bool}
  {refusal failure : Failure}

theorem record_yields (call : Call) (world : World) :
    (record call).Yields world
      (match world.met call with
        | some failure => .error failure
        | none => .ok ()) world := by
  have hmodify : (modify fun world : World => { world with calls := world.calls ++ [call] } :
      Action PUnit).Yields world (.ok ()) world := by
    apply Yields.modify
    intro records
    exact ⟨{ records with calls := records.calls ++ [call] }, rfl⟩
  unfold record World.met
  refine hmodify.bind (Yields.get_bind fun records => ?_)
  rw [World.withRecords_fault]
  cases world.fault with
  | none => exact .pure _ world
  | some fault =>
    dsimp only
    split
    · exact .throw _ world
    · exact .pure _ world

theorem record_yields_of_none (h : world.met call = none) :
    (record call).Yields world (.ok ()) world := by
  have hrecord := record_yields call world
  rw [h] at hrecord
  exact hrecord

theorem record_yields_of_some (h : world.met call = some failure) :
    (record call).Yields world (.error failure) world := by
  have hrecord := record_yields call world
  rw [h] at hrecord
  exact hrecord

theorem store_yields_of_new (h : (onlyNew && world.bucket.has key) = false) :
    (store key body onlyNew refusal).Yields world (.ok ())
      (world.withBucket (world.bucket.put key body)) := by
  unfold store
  refine Yields.get_bind fun records => ?_
  simp only [World.withRecords_bucket, h]
  exact .set ⟨records, rfl⟩

theorem store_yields_of_refused (h : (onlyNew && world.bucket.has key) = true) :
    (store key body onlyNew refusal).Yields world (.error refusal) world := by
  unfold store
  refine Yields.get_bind fun records => ?_
  simp only [World.withRecords_bucket, h]
  exact (Yields.throw refusal world).bind_error

end Cloud

namespace Store

variable {store : Store} {name key : String} {source : Source} {overwrite onlyNew : Bool}
  {world : World} {body : ByteArray} {failure : Failure}

theorem compress_yields_of_error (h : source.content = .error failure) (world : World) :
    (store.compress source).Yields world (.error failure) world := by
  have houtcome := compressedCopy_of_error store.compression h
  unfold compress
  dsimp only
  rw [houtcome]
  exact .throw failure world

theorem compress_yields_of_ok (h : source.content = .ok body) (world : World) :
    (store.compress source).Yields world (.ok (store.raw source)) world := by
  obtain ⟨n, houtcome⟩ := (compressedCopy_of_ok store.compression h).1
  unfold compress
  dsimp only
  rw [houtcome]
  exact .pure _ world

namespace Gcs

def upload (store : Store) (key : String) (source : Source) (onlyNew : Bool) : Action Unit := do
  Cloud.record (.openWrite key contentType onlyNew true)
  let body ← store.compress source
  Cloud.Gcs.commit key cacheControl body onlyNew

def refusal : Failure :=
  Cloud.Gcs.failure "PreconditionFailed" "generation mismatch"

inductive Broken (store : Store) (key : String) (source : Source) (onlyNew : Bool) (world : World)
    (failure : Failure) : Prop where
  | atOpening (hmet : world.met (.openWrite key contentType onlyNew true) = some failure)
  | bySource (hmet : world.met (.openWrite key contentType onlyNew true) = none)
      (hcontent : source.content = .error failure)
  | atCommit (hmet : world.met (.openWrite key contentType onlyNew true) = none) (body : ByteArray)
      (hcontent : source.content = .ok body)
      (hcommit : world.met (.commit key cacheControl (store.raw source)) = some failure)

theorem upload_yields_of_broken (h : Broken store key source onlyNew world failure) :
    (upload store key source onlyNew).Yields world (.error failure) world := by
  unfold upload
  cases h with
  | atOpening hmet => exact (record_yields_of_some hmet).bind_error
  | bySource hmet hcontent =>
    refine (record_yields_of_none hmet).bind ?_
    exact (compress_yields_of_error hcontent world).bind_error
  | atCommit hmet body hcontent hcommit =>
    refine (record_yields_of_none hmet).bind ?_
    refine (compress_yields_of_ok hcontent world).bind ?_
    exact (record_yields_of_some hcommit).bind_error

structure Sound (store : Store) (key : String) (source : Source) (onlyNew : Bool) (world : World)
    (body : ByteArray) : Prop where
  opens : world.met (.openWrite key contentType onlyNew true) = none
  reads : source.content = .ok body
  commits : world.met (.commit key cacheControl (store.raw source)) = none

theorem upload_yields_of_sound (h : Sound store key source onlyNew world body)
    {result : Except Failure Unit} {world' : World}
    (hstore : (Cloud.store key (store.raw source) onlyNew refusal).Yields world result world') :
    (upload store key source onlyNew).Yields world result world' := by
  unfold upload
  refine (record_yields_of_none h.opens).bind ?_
  refine (compress_yields_of_ok h.reads world).bind ?_
  exact (record_yields_of_none h.commits).bind hstore

theorem broken_or_sound (store : Store) (key : String) (source : Source) (onlyNew : Bool)
    (world : World) :
    (∃ failure, Broken store key source onlyNew world failure)
      ∨ ∃ body, Sound store key source onlyNew world body := by
  cases hopen : world.met (.openWrite key contentType onlyNew true) with
  | some failure => exact .inl ⟨failure, .atOpening hopen⟩
  | none =>
    cases hcontent : source.content with
    | error failure => exact .inl ⟨failure, .bySource hopen hcontent⟩
    | ok body =>
      cases hcommit : world.met (.commit key cacheControl (store.raw source)) with
      | some failure => exact .inl ⟨failure, .atCommit hopen body hcontent hcommit⟩
      | none => exact .inr ⟨body, hopen, hcontent, hcommit⟩

theorem write_yields_of_broken (store : Store)
    (h : Broken store (store.key name) source (!overwrite) world failure) :
    (write store name source overwrite).Yields world
      (refused (fun failure => .ok (Cloud.Gcs.collides failure)) overwrite failure) world :=
  noted_yields (conditionalWrite_yields_of_error (upload_yields_of_broken h))

theorem write_yields_of_refused
    (h : Sound store (store.key name) source (!overwrite) world body)
    (hhas : (!overwrite && world.bucket.has (store.key name)) = true) :
    (write store name source overwrite).Yields world (.ok false) world := by
  have hupload := upload_yields_of_sound h (store_yields_of_refused hhas)
  have hwrite : (write store name source overwrite).Yields world
      (refused (fun failure => .ok (Cloud.Gcs.collides failure)) overwrite refusal) world :=
    noted_yields (conditionalWrite_yields_of_error hupload)
  have hkeeps : overwrite = false := by
    cases overwrite with
    | true => cases hhas
    | false => rfl
  subst hkeeps
  exact hwrite

theorem write_yields_of_new
    (h : Sound store (store.key name) source (!overwrite) world body)
    (hhas : (!overwrite && world.bucket.has (store.key name)) = false) :
    (write store name source overwrite).Yields world (.ok true)
      (world.withBucket (world.bucket.put (store.key name) (store.raw source))) :=
  noted_yields (conditionalWrite_yields_of_ok (upload_yields_of_sound h (store_yields_of_new hhas)))

theorem getBlob_yields (hfault : world.fault = none) (key : String) :
    (Cloud.Gcs.getBlob key).Yields world (.ok (world.bucket.get? key)) world := by
  unfold Cloud.Gcs.getBlob
  refine (record_yields_of_none (World.met_of_fault_none hfault _)).bind ?_
  refine Yields.get_bind fun records => ?_
  exact .pure _ world

theorem contains_yields (hfault : world.fault = none) (store : Store) (name : String) :
    (contains store name).Yields world (.ok (world.bucket.has (store.key name))) world := by
  unfold contains
  refine (getBlob_yields hfault _).attempt.bind ?_
  exact .pure _ world

theorem openRaw_yields_of_some {raw : ByteArray} (store : Store) (hfault : world.fault = none)
    (h : world.bucket.get? (store.key name) = some raw) :
    (openRaw store name).Yields world (.ok raw) world := by
  have hget := getBlob_yields hfault (store.key name)
  rw [h] at hget
  unfold openRaw
  refine (note_yields _ _ _ world).bind (hget.bind ?_)
  refine (record_yields_of_none (World.met_of_fault_none hfault _)).bind ?_
  exact .pure raw world

theorem delete_yields_of_error (h : (Cloud.Gcs.deleteBlob (store.key name)).Yields world
    (.error failure) world) :
    (delete store name).Yields world
      (.error (if Cloud.Gcs.isNotFound failure then store.notFound name (some failure.reason)
        else failure)) world := by
  unfold delete
  refine h.attempt.bind ?_
  dsimp only
  split
  · exact .throw _ world
  · exact .throw _ world

theorem delete_yields_of_met
    (hmet : world.met (.deleteBlob (store.key name)) = some failure) :
    (delete store name).Yields world
      (.error (if Cloud.Gcs.isNotFound failure then store.notFound name (some failure.reason)
        else failure)) world := by
  apply delete_yields_of_error
  unfold Cloud.Gcs.deleteBlob
  exact (record_yields_of_some hmet).bind_error

theorem delete_yields_of_absent (store : Store)
    (hmet : world.met (.deleteBlob (store.key name)) = none)
    (h : world.bucket.has (store.key name) = false) :
    ∃ cause, (delete store name).Yields world (.error (store.notFound name cause)) world := by
  have hdelete : (Cloud.Gcs.deleteBlob (store.key name)).Yields world
      (.error (Cloud.Gcs.failure "NotFound" "no such object")) world := by
    unfold Cloud.Gcs.deleteBlob
    refine (record_yields_of_none hmet).bind (Yields.get_bind fun records => ?_)
    simp only [World.withRecords_bucket, h]
    exact (Yields.throw _ world).bind_error
  exact ⟨_, delete_yields_of_error hdelete⟩

theorem delete_yields_of_has (hmet : world.met (.deleteBlob (store.key name)) = none)
    (h : world.bucket.has (store.key name) = true) :
    (delete store name).Yields world (.ok ())
      (world.withBucket (world.bucket.remove (store.key name))) := by
  have hdelete : (Cloud.Gcs.deleteBlob (store.key name)).Yields world (.ok ())
      (world.withBucket (world.bucket.remove (store.key name))) := by
    unfold Cloud.Gcs.deleteBlob
    refine (record_yields_of_none hmet).bind (Yields.get_bind fun records => ?_)
    simp only [World.withRecords_bucket, h]
    exact .set ⟨records, rfl⟩
  unfold delete
  exact hdelete.attempt.bind (note_yields _ _ _ _)

theorem delete_cases (store : Store) (name : String) (world : World) :
    (∃ failure, (delete store name).Yields world (.error failure) world)
      ∨ (delete store name).Yields world (.ok ())
          (world.withBucket (world.bucket.remove (store.key name))) := by
  cases hmet : world.met (.deleteBlob (store.key name)) with
  | some failure => exact .inl ⟨_, delete_yields_of_met hmet⟩
  | none =>
    cases hhas : world.bucket.has (store.key name) with
    | true => exact .inr (delete_yields_of_has hmet hhas)
    | false =>
      obtain ⟨cause, h⟩ := delete_yields_of_absent store hmet hhas
      exact .inl ⟨_, h⟩

end Gcs

namespace S3

def refusal : Failure :=
  Cloud.S3.failure "PreconditionFailed" 412 "PutObject"

theorem putObject_yields_of_met {bucket : String} {raw : ByteArray}
    (hmet : world.met (.putObject bucket key contentType onlyNew raw) = some failure) :
    (Cloud.S3.putObject bucket key contentType raw onlyNew).Yields world (.error failure) world := by
  unfold Cloud.S3.putObject
  exact (record_yields_of_some hmet).bind_error

theorem putObject_yields {bucket : String} {raw : ByteArray} {result : Except Failure Unit}
    {world' : World} (hmet : world.met (.putObject bucket key contentType onlyNew raw) = none)
    (hstore : (Cloud.store key raw onlyNew refusal).Yields world result world') :
    (Cloud.S3.putObject bucket key contentType raw onlyNew).Yields world result world' := by
  unfold Cloud.S3.putObject
  exact (record_yields_of_none hmet).bind hstore

theorem write_yields_of_source (hcontent : source.content = .error failure) :
    (write store name source overwrite).Yields world (.error failure) world := by
  unfold write
  exact (compress_yields_of_error hcontent world).bind_error

theorem write_yields_of_put (hcontent : source.content = .ok body)
    {result : Except Failure Bool} {world' : World}
    (h : (conditionalWrite
      (Cloud.S3.putObject store.location.host (store.key name) contentType (store.raw source)
        !overwrite) overwrite Cloud.S3.collides (store.key name)).Yields world result world') :
    (write store name source overwrite).Yields world result world' := by
  unfold write
  refine (compress_yields_of_ok hcontent world).bind ?_
  exact noted_yields h

theorem write_yields_of_met (hcontent : source.content = .ok body)
    (hmet : world.met (.putObject store.location.host (store.key name) contentType
      (!overwrite) (store.raw source)) = some failure) :
    (write store name source overwrite).Yields world
      (refused Cloud.S3.collides overwrite failure) world :=
  write_yields_of_put hcontent (conditionalWrite_yields_of_error (putObject_yields_of_met hmet))

theorem write_yields_of_refused (hcontent : source.content = .ok body)
    (hmet : world.met (.putObject store.location.host (store.key name) contentType
      (!overwrite) (store.raw source)) = none)
    (hhas : (!overwrite && world.bucket.has (store.key name)) = true) :
    (write store name source overwrite).Yields world (.ok false) world := by
  have hput := putObject_yields hmet (store_yields_of_refused hhas)
  have hwrite := write_yields_of_put hcontent (conditionalWrite_yields_of_error hput)
  have hkeeps : overwrite = false := by
    cases overwrite with
    | true => cases hhas
    | false => rfl
  subst hkeeps
  exact hwrite

theorem write_yields_of_new (hcontent : source.content = .ok body)
    (hmet : world.met (.putObject store.location.host (store.key name) contentType
      (!overwrite) (store.raw source)) = none)
    (hhas : (!overwrite && world.bucket.has (store.key name)) = false) :
    (write store name source overwrite).Yields world (.ok true)
      (world.withBucket (world.bucket.put (store.key name) (store.raw source))) := by
  have hput := putObject_yields hmet (store_yields_of_new hhas)
  exact write_yields_of_put hcontent (conditionalWrite_yields_of_ok hput)

theorem raise_yields {α : Type} (h : Cloud.S3.isNotFound failure = .ok true) (world : World) :
    (raise store name failure : Action α).Yields world
      (.error (store.notFound name (some failure.reason))) world := by
  unfold raise
  rw [h]
  exact (Yields.ofResult _ world).bind (.throw _ world)

theorem raise_cases {α : Type} (store : Store) (name : String) (failure : Failure) (world : World) :
    ∃ other, (raise store name failure : Action α).Yields world (.error other) world := by
  unfold raise
  cases Cloud.S3.isNotFound failure with
  | error other => exact ⟨other, (Yields.ofResult _ world).bind_error⟩
  | ok absent =>
    cases absent with
    | true => exact ⟨_, (Yields.ofResult _ world).bind (.throw _ world)⟩
    | false => exact ⟨_, (Yields.ofResult _ world).bind (.throw _ world)⟩

theorem headObject_yields_of_has {bucket : String}
    (hmet : world.met (.headObject bucket key) = none) (h : world.bucket.has key = true) :
    (Cloud.S3.headObject bucket key).Yields world (.ok ()) world := by
  unfold Cloud.S3.headObject
  refine (record_yields_of_none hmet).bind (Yields.get_bind fun records => ?_)
  simp only [World.withRecords_bucket, h]
  exact .pure _ world

theorem headObject_yields_of_absent {bucket : String}
    (hmet : world.met (.headObject bucket key) = none) (h : world.bucket.has key = false) :
    (Cloud.S3.headObject bucket key).Yields world
      (.error (Cloud.S3.failure "404" 404 "HeadObject")) world := by
  unfold Cloud.S3.headObject
  refine (record_yields_of_none hmet).bind (Yields.get_bind fun records => ?_)
  simp only [World.withRecords_bucket, h]
  exact .throw _ world

theorem contains_yields (hfault : world.fault = none) (store : Store) (name : String) :
    (contains store name).Yields world (.ok (world.bucket.has (store.key name))) world := by
  have hmet := World.met_of_fault_none hfault (.headObject store.location.host (store.key name))
  unfold contains
  cases hhas : world.bucket.has (store.key name) with
  | true => exact (headObject_yields_of_has hmet hhas).attempt.bind (.pure _ world)
  | false =>
    refine (headObject_yields_of_absent hmet hhas).attempt.bind ?_
    exact (Yields.ofResult (.ok true) world).bind (.pure _ world)

theorem openRaw_yields_of_some {raw : ByteArray} (store : Store) (hfault : world.fault = none)
    (h : world.bucket.get? (store.key name) = some raw) :
    (openRaw store name).Yields world (.ok raw) world := by
  have hget : (Cloud.S3.getObject store.location.host (store.key name)).Yields world
      (.ok raw) world := by
    unfold Cloud.S3.getObject
    refine (record_yields_of_none (World.met_of_fault_none hfault _)).bind ?_
    refine Yields.get_bind fun records => ?_
    simp only [World.withRecords_bucket, h]
    exact .pure raw world
  unfold openRaw
  exact (note_yields _ _ _ world).bind (hget.attempt.bind (.pure raw world))

theorem deleteObject_yields {bucket : String}
    (hmet : world.met (.deleteObject bucket key) = none) :
    (Cloud.S3.deleteObject bucket key).Yields world (.ok ())
      (world.withBucket (world.bucket.remove key)) := by
  unfold Cloud.S3.deleteObject
  refine (record_yields_of_none hmet).bind ?_
  apply Yields.modify
  exact fun records => ⟨records, rfl⟩

theorem delete_yields_of_has
    (hhead : world.met (.headObject store.location.host (store.key name)) = none)
    (hdelete : world.met (.deleteObject store.location.host (store.key name)) = none)
    (h : world.bucket.has (store.key name) = true) :
    (delete store name).Yields world (.ok ())
      (world.withBucket (world.bucket.remove (store.key name))) := by
  unfold delete
  refine (headObject_yields_of_has hhead h).attempt.bind ?_
  exact (deleteObject_yields hdelete).bind (note_yields _ _ _ _)

theorem delete_yields_of_absent (store : Store)
    (hhead : world.met (.headObject store.location.host (store.key name)) = none)
    (h : world.bucket.has (store.key name) = false) :
    ∃ cause, (delete store name).Yields world (.error (store.notFound name cause)) world := by
  refine ⟨some (Cloud.S3.failure "404" 404 "HeadObject").reason, ?_⟩
  unfold delete
  refine (headObject_yields_of_absent hhead h).attempt.bind ?_
  exact raise_yields rfl world

theorem delete_cases (store : Store) (name : String) (world : World) :
    (∃ failure, (delete store name).Yields world (.error failure) world)
      ∨ (delete store name).Yields world (.ok ())
          (world.withBucket (world.bucket.remove (store.key name))) := by
  have hraise : ∀ {failure : Failure},
      (Cloud.S3.headObject store.location.host (store.key name)).Yields world
        (.error failure) world →
      ∃ other, (delete store name).Yields world (.error other) world := by
    intro failure hhead
    obtain ⟨other, h⟩ := raise_cases (α := Unit) store name failure world
    refine ⟨other, ?_⟩
    unfold delete
    exact hhead.attempt.bind h
  cases hhead : world.met (.headObject store.location.host (store.key name)) with
  | some failure =>
    left
    apply hraise
    unfold Cloud.S3.headObject
    exact (record_yields_of_some hhead).bind_error
  | none =>
    cases hhas : world.bucket.has (store.key name) with
    | false => exact .inl (hraise (headObject_yields_of_absent hhead hhas))
    | true =>
      cases hdelete : world.met (.deleteObject store.location.host (store.key name)) with
      | none => exact .inr (delete_yields_of_has hhead hdelete hhas)
      | some failure =>
        refine .inl ⟨failure, ?_⟩
        unfold delete Cloud.S3.deleteObject
        refine (headObject_yields_of_has hhead hhas).attempt.bind ?_
        exact (record_yields_of_some hdelete).bind_error.bind_error

end S3

end Store

end Depot
