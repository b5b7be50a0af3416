import Depot.Files.Change
import Depot.Files.Resolve
import Depot.Files.Scan
import Depot.Path.Query
import Depot.Policy
import Depot.Reader
import Depot.Store.Basic
import Depot.Transfer
import Depot.Walk

/-!
This module contains stores in local directories. An object is a file. It is written to a staging
file next to its place, which is then published under its name at once.
-/

namespace Depot.Store.Files

open Depot.Files

def stagingStart : String := ".objstore-"

def stagingEnd : String := ".tmp"

def isStaging (name : String) : Bool :=
  Text.startsWith stagingStart name && Text.endsWith stagingEnd name

/-- How many digits the number of a staging file has, unless it needs more. -/
def stagingDigits : Nat := 32

def stagingNumbers : Nat := Nat.pow 16 stagingDigits

def stagingName (name : String) (number : Nat) : String :=
  let digits := Text.hexPadded (stagingDigits + number / stagingNumbers) number
  stagingStart ++ name ++ "." ++ String.ofList digits ++ stagingEnd

def collides (failure : Failure) : Bool :=
  failure.reason.kindName = "FileExistsError"

def base (store : Store) : Pathname :=
  .parse (if store.location.path = "" then "/" else store.location.path)

def keyPath (key : String) : Pathname :=
  .parse ("/" ++ key)

def fail {α : Type} (error : SystemError) : Action α :=
  throw (.ofSystem error)

/-- Performs a change of the files. The way from a code to an error is given. -/
def change (act : Tree → Except SystemErrorCode Tree) (error : SystemErrorCode → SystemError) :
    Action Unit := do
  let world ← get
  match act world.tree with
  | .ok tree => set { world with tree }
  | .error code => fail (error code)

/-- Whether everything at `place` is within the directory at `base`. -/
def isWithin (base place : Place) : Bool :=
  base.isSuffixOf place

def traversal (store : Store) (name : String) (cause : Reason) : Failure :=
  { reason := .storage (store.errorAbout .pathTraversal name), cause := some cause }

/-- The resolved place of a path that a name needs. A zero character counts as leading out. -/
def resolveFor (store : Store) (name : String) (tree : Tree) (p : Pathname) :
    Except Failure Place :=
  match tree.resolve p with
  | .ok place => .ok place
  | .error failure =>
    match failure.reason with
    | .malformed why => .error (traversal store name (.malformed why))
    | _ => .error failure

def objectPath (store : Store) (name : String) : Action Pathname := do
  let p := keyPath (store.key name)
  let tree := (← get).tree
  let place ← Action.ofResult (resolveFor store name tree p)
  let root ← Action.ofResult (resolveFor store name tree (base store))
  if isWithin root place then return p
  else throw (traversal store name (.outside place.render root.render))

def makeDirectories (p : Pathname) : Action Unit := do
  let world ← get
  let (result, tree) := world.tree.makeDirectories p.start p.names.reverse
  set { world with tree }
  match result with
  | .ok _ => return ()
  | .error error => fail error

def freshStaging (tree : Tree) (p : Pathname) : String :=
  let taken := tree.nodes.keys.filterMap List.head?
  let number := (List.range (taken.length + 1)).find? fun n =>
    !taken.contains (stagingName p.name n)
  stagingName p.name (number.getD 0)

def fillFile (p : Pathname) (source : Source) (scheme : Codec.Scheme) : Action Unit := do
  change (·.writeFile p .empty) (errorAt p)
  let copied := compressedCopy source {} scheme
  match copied.outcome with
  | .error failure => throw failure
  | .ok _ => change (·.writeFile p copied.sink.close.bytes) (errorAt p)

/-- Removes a staging file, if it is there. That it cannot be removed is only noted. -/
def discard (staging : Pathname) : Action Unit := do
  let world ← get
  match world.tree.unlink staging with
  | .ok tree => set { world with tree }
  | .error .noEntry => return ()
  | .error code =>
    note .warning .files ("Failed to remove staging file " ++ staging.name ++ ": "
      ++ (errorAt staging code).render)

def publish (staging target : Pathname) (overwrite : Bool) : Action Unit :=
  if overwrite then change (·.rename staging target) (errorBetween staging target)
  else change (·.hardLink staging target) (errorBetween staging target)

def write (store : Store) (name : String) (source : Source) (overwrite : Bool) : Action Bool := do
  let target ← objectPath store name
  makeDirectories target.parent
  let staging := target.parent.child (freshStaging (← get).tree target)
  let written ← Action.andFinally
    (do
      fillFile staging source store.compression
      conditionalWrite (publish staging target overwrite) overwrite
        (fun failure => .ok (collides failure)) (store.key name))
    (discard staging)
  if written then note .debug .files ("Stored object: backend=filesystem name=" ++ name)
  return written

def isAbsence (code : SystemErrorCode) : Bool :=
  code = .noEntry || code = .notDirectory || code = .isDirectory

def objectFailure (store : Store) (name : String) (p : Pathname) (code : SystemErrorCode) :
    Failure :=
  let error := errorAt p code
  if isAbsence code then store.notFound name (some (.system error)) else .ofSystem error

def openRaw (store : Store) (name : String) : Action ByteArray := do
  let p ← objectPath store name
  note .debug .files ("Opening object: name=" ++ store.naming.withExtension name)
  match (← get).tree.content p with
  | .ok bytes => return bytes
  | .error code => throw (objectFailure store name p code)

/-- Deletes an object. A directory only holds other objects. -/
def delete (store : Store) (name : String) : Action Unit := do
  let p ← objectPath store name
  let world ← get
  match world.tree.isDirectory p with
  | .error code => fail (errorAt p code)
  | .ok true => throw (store.notFound name)
  | .ok false =>
    match world.tree.unlink p with
    | .error code => throw (objectFailure store name p code)
    | .ok tree =>
      set { world with tree }
      note .debug .files ("Deleted object: backend=filesystem name=" ++ name)

def contains (store : Store) (name : String) : Action Bool := do
  let p ← objectPath store name
  match (← get).tree.stat p with
  | .ok (.file _) => return true
  | .ok _ => return false
  | .error .noEntry | .error .notDirectory => return false
  | .error code => fail (errorAt p code)

/-- The directory that all keys starting with `query` are in. -/
def scanned (query : String) : String :=
  if Text.endsWith "/" query then query
  else
    let head := (query.toList.reverse.dropWhile (· ≠ '/')).reverse
    let trimmed := Text.dropWhileEnd (· = '/') head
    String.ofList (if trimmed = [] then head else trimmed)

def keyBelow (directory : Pathname) (names : List String) : String :=
  "/".intercalate (directory.names ++ names)

/-- The keys that start with `query` of the files below a directory, in ascending order. -/
def keysBelow (tree : Tree) (directory : Pathname) (place : Place) (query : String) :
    List String :=
  let names := (tree.filesBelow directory place).filter fun names => !isStaging (names.getLastD "")
  ((names.map (keyBelow directory)).filter (Text.startsWith query)).mergeSort

/-- The keys that start with `query`. -/
def listing (tree : Tree) (query : String) : Listing :=
  let directory := keyPath (scanned query)
  if directory.holdsZero then []
  else
    match tree.isDirectory directory, tree.locate directory with
    | .error code, _ => [.failed (.ofSystem (errorAt directory code))]
    | .ok true, .ok place => Listing.ofKeys (keysBelow tree directory place query)
    | .ok _, _ => []

end Depot.Store.Files
