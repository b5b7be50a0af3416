import Depot.Error.System
import Depot.Files.Pathname
import Depot.Table

/-!
This module contains trees of files, and how pathnames are followed in them through directories and
symbolic links.
-/

namespace Depot.Files

/-- The place of a file: its own name, then those of the directories it is in, innermost first. -/
abbrev Place := List String

namespace Place

def render (place : Place) : String :=
  "/" ++ "/".intercalate place.reverse

def pathname (place : Place) : Pathname :=
  ⟨.root, place.reverse⟩

end Place

inductive Node where
  | file (bytes : ByteArray)
  | directory
  | link (target : String)

/-- A tree of files. There is always a directory at the root. -/
structure Tree where
  nodes : Table Place Node
  current : Place := []

namespace Tree

def get? (tree : Tree) (place : Place) : Option Node :=
  if place = [] then some .directory else tree.nodes.get? place

def insert (tree : Tree) (place : Place) (node : Node) : Tree :=
  { tree with nodes := tree.nodes.insert place node }

def erase (tree : Tree) (place : Place) : Tree :=
  { tree with nodes := tree.nodes.erase place }

def hasDirectory (tree : Tree) (place : Place) : Bool :=
  match tree.get? place with
  | some .directory => true
  | _ => false

def maxName : Nat := 255

def maxPathname : Nat := 4096

def maxLinks : Nat := 40

def isTooLong (name : String) : Bool :=
  maxName < name.utf8ByteSize

/-- Whether the system takes a pathname, as far as its whole length goes. -/
def takes (p : Pathname) : Bool :=
  p.render.utf8ByteSize < maxPathname

/-- Where the way that a link describes starts, if the link is in the given directory. -/
def linkStart (directory : Place) (target : String) : Place :=
  if Text.startsWith "/" target then [] else directory

def linkNames (target : String) : List String :=
  (Pathname.ofText target).names

/--
Follows names from a place, and the links on the way. If `mayLack`, there need not be anything at
the last name.
-/
def follow (tree : Tree) (mayLack : Bool) (links : Nat) (place : Place) (names : List String) :
    Except SystemErrorCode Place :=
  match names with
  | [] => .ok place
  | name :: rest =>
    if !tree.hasDirectory place then .error .notDirectory
    else if name = "." then tree.follow mayLack links place rest
    else if name = ".." then tree.follow mayLack links place.tail rest
    else if isTooLong name then .error .nameTooLong
    else
      match tree.get? (name :: place) with
      | none => if mayLack && rest.isEmpty then .ok (name :: place) else .error .noEntry
      | some (.link target) =>
        match links with
        | 0 => .error .tooManyLinks
        | links + 1 =>
          tree.follow mayLack links (linkStart place target) (linkNames target ++ rest)
      | some _ => tree.follow mayLack links (name :: place) rest
termination_by (links, names.length)

def startOf (tree : Tree) (p : Pathname) : Place :=
  match p.start with
  | .current => tree.current
  | .root | .doubleRoot => []

def followFrom (tree : Tree) (mayLack : Bool) (p : Pathname) (names : List String) :
    Except SystemErrorCode Place :=
  if maxPathname ≤ p.render.utf8ByteSize then .error .nameTooLong
  else tree.follow mayLack maxLinks (tree.startOf p) names

def locate (tree : Tree) (p : Pathname) : Except SystemErrorCode Place :=
  tree.followFrom false p p.names

/--
The place that the last component of a pathname names, whatever is there. There is none if the
pathname is the root or ends in dots.
-/
def entry? (tree : Tree) (p : Pathname) : Except SystemErrorCode (Option Place) := do
  match p.names.getLast? with
  | none => return none
  | some name =>
    let directory ← tree.followFrom false p p.names.dropLast
    if !tree.hasDirectory directory then throw .notDirectory
    else if name = "." || name = ".." then return none
    else if isTooLong name then throw .nameTooLong
    else return some (name :: directory)

def stat (tree : Tree) (p : Pathname) : Except SystemErrorCode Node := do
  match tree.get? (← tree.locate p) with
  | some node => return node
  | none => throw .noEntry

/-- Whether a pathname leads to a directory. That a name is too long is an error. -/
def isDirectory (tree : Tree) (p : Pathname) : Except SystemErrorCode Bool :=
  match tree.stat p with
  | .ok .directory => .ok true
  | .ok _ => .ok false
  | .error .nameTooLong => .error .nameTooLong
  | .error _ => .ok false

def content (tree : Tree) (p : Pathname) : Except SystemErrorCode ByteArray := do
  match ← tree.stat p with
  | .file bytes => return bytes
  | _ => throw .isDirectory

end Tree

end Depot.Files
