import Depot.Walk
import Depot.World

/-!
This module contains the clients of the two providers: their calls on the bucket, each of which is
recorded before anything can go wrong.
-/

namespace Depot.Cloud

/-- Records a call, and fails if calls of its name meet a failure. -/
def record (call : Call) : Action Unit := do
  modify fun world => { world with calls := world.calls ++ [call] }
  match (← get).fault with
  | some (name, failure) => if name = call.name then throw failure
  | none => pure ()

/-- Puts a body into the bucket, unless it must be new and is not. -/
def store (key : String) (body : ByteArray) (onlyNew : Bool) (refusal : Failure) : Action Unit := do
  let world ← get
  if onlyNew && world.bucket.has key then throw refusal
  set { world with bucket := world.bucket.put key body }

def strike (fault : Option (String × Failure)) : Listing → Listing
  | [] => []
  | .call call :: rest =>
    match fault with
    | some (name, failure) =>
      if name = call.name then [.call call, .failed failure] else .call call :: strike fault rest
    | none => .call call :: strike fault rest
  | item :: rest => item :: strike fault rest

namespace Gcs

def failure (name message : String) : Failure :=
  { reason := .provider (.status name message) }

/-- Closes an object that was opened for writing: only this stores it. -/
def commit (key cacheControl : String) (body : ByteArray) (onlyNew : Bool) : Action Unit := do
  record (.commit key cacheControl body)
  store key body onlyNew (failure "PreconditionFailed" "generation mismatch")

/-- The body of an object, if it is there. -/
def getBlob (key : String) : Action (Option ByteArray) := do
  record (.getBlob key)
  return (← get).bucket.get? key

def deleteBlob (key : String) : Action Unit := do
  record (.deleteBlob key)
  let world ← get
  if !world.bucket.has key then throw (failure "NotFound" "no such object")
  set { world with bucket := world.bucket.remove key }

def fixedKeys (pages : List Value) : List String :=
  pages.filterMap fun
    | .text key => some key
    | _ => none

/-- The keys that start with `query` from `offset` on. -/
def listing (world : World) (bucket query : String) (offset : Option String) : Listing :=
  let lead := if query = "" then none else some query
  let keys :=
    match world.bucket.fixedPages with
    | some pages => fixedKeys pages
    | none => world.bucket.keysFrom query offset
  strike world.fault (.call (.listBlobs bucket lead offset) :: Listing.ofKeys keys)

end Gcs

namespace S3

def failure (code : String) (status : Int) (operation : String) : Failure :=
  let error := [("Code", .text code), ("Message", .text code)]
  let metadata := [("HTTPStatusCode", .int status)]
  let response := Value.object [("Error", .object error), ("ResponseMetadata", .object metadata)]
  { reason := .provider (.response response (ProviderError.textOf error metadata operation)) }

def putObject (bucket key contentType : String) (body : ByteArray) (onlyNew : Bool) :
    Action Unit := do
  record (.putObject bucket key contentType onlyNew body)
  store key body onlyNew (failure "PreconditionFailed" 412 "PutObject")

def getObject (bucket key : String) : Action ByteArray := do
  record (.getObject bucket key)
  match (← get).bucket.get? key with
  | some body => return body
  | none => throw (failure "NoSuchKey" 404 "GetObject")

def headObject (bucket key : String) : Action Unit := do
  record (.headObject bucket key)
  if !(← get).bucket.has key then throw (failure "404" 404 "HeadObject")

/-- Deletes an object, if it is there. -/
def deleteObject (bucket key : String) : Action Unit := do
  record (.deleteObject bucket key)
  modify fun world => { world with bucket := world.bucket.remove key }

def entryItem (entry : Value) : List Item :=
  match entry with
  | .object members =>
    match Value.member? "Key" members with
    | some (.text key) => if key = "" then [] else [.key key]
    | _ => []
  | v => [.failed { reason := .noMember v.kindName "get" }]

def pageItems (page : Value) : List Item :=
  match page with
  | .object members =>
    match Value.member? "Contents" members with
    | some (.list entries) => entries.flatMap entryItem
    | _ => []
  | v => [.failed { reason := .noMember v.kindName "get" }]

/-- The pages of a listing. Keys that are empty are not told. -/
def pages (bucket : Bucket) (query : String) (after : Option String) : List (List Item) :=
  match bucket.fixedPages with
  | some pages => pages.map pageItems
  | none =>
    (Bucket.paged bucket.pageSize (bucket.keysAfter query after)).map fun keys =>
      Listing.ofKeys (keys.filter (· ≠ ""))

/-- The keys that start with `query` and are greater than `after`, page by page. -/
def listing (world : World) (bucket query : String) (after : Option String) : Listing :=
  strike world.fault <|
    .call (.getPaginator "list_objects_v2") :: .call (.paginate bucket query after)
      :: (pages world.bucket query after).flatMap (.call .page :: ·)

end S3

end Depot.Cloud
