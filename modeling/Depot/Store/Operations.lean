import Depot.Reader
import Depot.Store.Cloud
import Depot.Store.Files

/-!
This module contains the operations of stores, which are the same for all kinds of them.
-/

namespace Depot.Store

def topic (store : Store) : Topic :=
  match store.backend with
  | .files => .files
  | .gcs => .gcs
  | .s3 => .s3

def tracedBy {α : Type} (store : Store) (operation : Tracing.Operation) (name : Option String)
    (summarize : α → List Tracing.Attribute) (act : Action α) : Action α :=
  traced operation store.backend.name name (fun a => .ok (summarize a)) act

/--
Writes an object. The result is false if there was an object and it may not be replaced; then
nothing is written.
-/
def write (store : Store) (name : String) (source : Source) (overwrite : Option Bool := none) :
    Action Bool :=
  store.tracedBy .writeObject (some name)
    (fun written => [("objstore.object_written", .flag written)]) <|
    match store.backend with
    | .files => Files.write store name source (store.mayReplace overwrite)
    | .gcs => Gcs.write store name source (store.mayReplace overwrite)
    | .s3 => S3.write store name source (store.mayReplace overwrite)

def openRaw (store : Store) (name : String) : Action ByteArray :=
  match store.backend with
  | .files => Files.openRaw store name
  | .gcs => Gcs.openRaw store name
  | .s3 => S3.openRaw store name

def markStream (store : Store) (closed : Bool) : Action Unit :=
  match store.backend with
  | .files => return ()
  | .gcs | .s3 => modify fun world => { world with streamClosed := some closed }

/-- Opens an object for reading its body. If a journal is kept, so is the closing of the reader. -/
def openReader (store : Store) (name : String) : Action Reader :=
  store.tracedBy .openObject (some name) (fun _ => []) do
    let bytes ← store.openRaw name
    store.markStream false
    let reader := Reader.ofBytes store.compression bytes
    return if (← get).debug then reader.wrap { announces := some name } else reader

def finish {α : Type} (store : Store) (used : Except Failure α × Reader) : Action α := do
  for run in used.2.ran do
    match run.hook.announces with
    | some name =>
      note .debug store.topic ("Closing object: name=" ++ store.naming.withExtension name)
    | none => pure ()
  store.markStream used.2.rawClosed
  Action.ofResult used.1

def readBytes (store : Store) (name : String) : Action ByteArray := do
  store.finish (← store.openReader name).readAndClose

/-- Reads pieces of at most `size` bytes up to the end or the first failure. -/
def piecesFrom (size : Nat) : (fuel : Nat) → Reader →
    (List ByteArray × Option Failure) × Reader
  | 0, r => (([], none), r)
  | fuel + 1, r =>
    match r.read size with
    | (.error failure, r) => (([], some failure), r)
    | (.ok bytes, r) =>
      if bytes.size = 0 then (([], none), r)
      else
        let ((pieces, failure), r) := piecesFrom size fuel r
        ((bytes :: pieces, failure), r)

def readPieces (store : Store) (name : String) (size : Nat) :
    Action (List ByteArray × Option Failure) := do
  let reader ← store.openReader name
  let (pieces, reader) := piecesFrom size (reader.body.left + 1) reader
  match reader.close with
  | (.error failure, reader) => store.finish (.error failure, reader)
  | (.ok _, reader) => store.finish (.ok pieces, reader)

def delete (store : Store) (name : String) : Action Unit :=
  store.tracedBy .deleteObject (some name) (fun _ => []) <|
    match store.backend with
    | .files => Files.delete store name
    | .gcs => Gcs.delete store name
    | .s3 => S3.delete store name

def contains (store : Store) (name : String) : Action Bool :=
  store.tracedBy .askExistence (some name)
    (fun found => [("objstore.object_exists", .flag found)]) <|
    match store.backend with
    | .files => Files.contains store name
    | .gcs => Gcs.contains store name
    | .s3 => S3.contains store name

/-- The keys that start with `query`, those before `offset` left out where the provider can. -/
def listing (store : Store) (world : World) (query : String) (offset : Option String) : Listing :=
  match store.backend with
  | .files => Files.listing world.tree query
  | .gcs => Cloud.Gcs.listing world store.location.host query offset
  | .s3 => Cloud.S3.listing world store.location.host query (Path.startAfter? offset)

/-- The text that the keys of all names under `under` start with. -/
def query (store : Store) (under : String) : String :=
  Path.queryPrefix store.location.keyPrefix under

/-- The walk over the names under `under` from `start` on. -/
def walkOf (store : Store) (world : World) (under start : String) (visitor : Visitor) : Walk :=
  let query := store.query under
  let offset := Path.startOffset? query start
  Walk.run store.naming.name offset visitor [] (store.listing world query offset)

/--
Visits the names under `under` in the order of their keys, from `start` on. The result tells how
the walk has ended; the operation itself does not fail.
-/
def walkFrom (store : Store) (under start : String) (visitor : Visitor) : Action Walk :=
  traced .walkNames store.backend.name (some under)
    (fun walk => walk.result.map fun count => [("objstore.walk_visit_count", .count count)]) do
    let walk := store.walkOf (← get) under start visitor
    modify fun world => { world with calls := world.calls ++ walk.calls }
    match walk.remark? with
    | some remark => note .debug .walk remark
    | none => pure ()
    return walk

/-- Visits all names under `under` in the order of their keys. -/
def walk (store : Store) (under : String) (visitor : Visitor) : Action Walk :=
  store.walkFrom under "" visitor

/-- How many names a listing has if nothing else is said. -/
def defaultLimit : Int := 1000

/-- The names of a walk, unless it has failed. -/
def namesOf (walk : Walk) : Action (List String) :=
  match walk.result with
  | .ok _ => return walk.names
  | .error failure => throw failure

/-- The first names under `under` from `start` on, at most `limit` of them. -/
def collectFrom (store : Store) (under start : String) (limit : Int) : Action (List String) := do
  match Walk.first? limit (store.walkFrom under start) with
  | none => return []
  | some walk => namesOf (← walk)

/-- The first names under `under`, at most `limit`. What the span tells of `under` is given. -/
def list (store : Store) (under : String) (limit : Int) (told : Option String) :
    Action (List String) :=
  store.tracedBy .listNames told
    (fun names => [("objstore.object_count", .count names.length)])
    (store.collectFrom under "" limit)

def readLocal (p : Files.Pathname) : Action ByteArray := do
  if p.holdsZero then Action.fail (.malformed .zeroByte)
  else
    match (← get).tree.content p with
    | .ok bytes => return bytes
    | .error code => Files.fail (Files.errorAt p code)

/-- Writes a local file as an object and then removes the file. What the span tells is given. -/
def push (store : Store) (path name : String) (told : Option String) : Action Unit :=
  store.tracedBy .pushFile told (fun _ => []) do
    let p := Files.Pathname.parse path
    let bytes ← readLocal p
    let _ ← store.write name (Source.ofBytes bytes)
    Files.change (·.unlink p) (Files.errorAt p)
    note .debug .store ("Pushed local file: name=" ++ name ++ " backend=" ++ store.backend.name)

end Depot.Store
