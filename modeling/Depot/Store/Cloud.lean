import Depot.Cloud.Classify
import Depot.Cloud.Client
import Depot.Path.Query
import Depot.Policy
import Depot.Store.Basic
import Depot.Transfer

/-!
This module contains stores in buckets of the two providers. The first uploads while it reads the
source and commits at the end; the second reads the source first and uploads it at once.
-/

namespace Depot.Store

/-- The type that all objects are stored with. -/
def contentType : String := "application/octet-stream"

/-- Compresses a source into the bytes to store. The sink is closed once all is in it. -/
def compress (store : Store) (source : Source) : Action ByteArray :=
  let copied := compressedCopy source {} store.compression
  match copied.outcome with
  | .error failure => throw failure
  | .ok _ => return copied.sink.close.bytes

namespace Gcs

/-- How long caches may keep an object. -/
def cacheControl : String := "public, max-age=86400"

def write (store : Store) (name : String) (source : Source) (overwrite : Bool) : Action Bool := do
  let key := store.key name
  let upload : Action Unit := do
    Cloud.record (.openWrite key contentType (!overwrite) true)
    let body ← store.compress source
    Cloud.Gcs.commit key cacheControl body !overwrite
  let written ← conditionalWrite upload overwrite
    (fun failure => .ok (Cloud.Gcs.collides failure)) key
  if written then note .debug .gcs ("Stored object: backend=gcs key=" ++ key)
  return written

def openRaw (store : Store) (name : String) : Action ByteArray := do
  let key := store.key name
  note .debug .gcs ("Opening object: name=" ++ store.naming.withExtension name)
  match ← Cloud.Gcs.getBlob key with
  | none => throw (store.notFound name)
  | some bytes =>
    Cloud.record (.openRead key)
    return bytes

def delete (store : Store) (name : String) : Action Unit := do
  let key := store.key name
  match ← (Cloud.Gcs.deleteBlob key).attempt with
  | .ok _ => note .debug .gcs ("Deleted object: backend=gcs key=" ++ key)
  | .error failure =>
    if Cloud.Gcs.isNotFound failure then throw (store.notFound name (some failure.reason))
    else throw failure

def contains (store : Store) (name : String) : Action Bool := do
  match ← (Cloud.Gcs.getBlob (store.key name)).attempt with
  | .ok body => return body.isSome
  | .error failure => if Cloud.Gcs.isNotFound failure then return false else throw failure

end Gcs

namespace S3

def write (store : Store) (name : String) (source : Source) (overwrite : Bool) : Action Bool := do
  let key := store.key name
  let body ← store.compress source
  let written ← conditionalWrite
    (Cloud.S3.putObject store.location.host key contentType body !overwrite) overwrite
    Cloud.S3.collides key
  if written then note .debug .s3 ("Stored object: backend=s3 key=" ++ key)
  return written

/-- Raises a failure, as that of finding an object if it means that. -/
def raise {α : Type} (store : Store) (name : String) (failure : Failure) : Action α := do
  if ← Action.ofResult (Cloud.S3.isNotFound failure) then
    throw (store.notFound name (some failure.reason))
  else throw failure

def openRaw (store : Store) (name : String) : Action ByteArray := do
  note .debug .s3 ("Opening object: name=" ++ store.naming.withExtension name)
  match ← (Cloud.S3.getObject store.location.host (store.key name)).attempt with
  | .ok bytes => return bytes
  | .error failure => raise store name failure

def delete (store : Store) (name : String) : Action Unit := do
  let key := store.key name
  match ← (Cloud.S3.headObject store.location.host key).attempt with
  | .error failure => raise store name failure
  | .ok _ =>
    Cloud.S3.deleteObject store.location.host key
    note .debug .s3 ("Deleted object: backend=s3 key=" ++ key)

def contains (store : Store) (name : String) : Action Bool := do
  match ← (Cloud.S3.headObject store.location.host (store.key name)).attempt with
  | .ok _ => return true
  | .error failure =>
    if ← Action.ofResult (Cloud.S3.isNotFound failure) then return false else throw failure

end S3

end Depot.Store
