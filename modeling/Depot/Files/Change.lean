import Depot.Files.Tree

/-!
This module contains the changes of a tree of files. Each answers with the changed tree, or with
the reason why nothing was changed.
-/

namespace Depot.Files

def errorAt (p : Pathname) (code : SystemErrorCode) : SystemError :=
  { code, path := some p.render }

def errorBetween (source target : Pathname) (code : SystemErrorCode) : SystemError :=
  { code, path := some source.render, target := some target.render }

namespace Tree

def makeDirectory (tree : Tree) (p : Pathname) : Except SystemErrorCode Tree := do
  match ← tree.entry? p with
  | none => throw .alreadyExists
  | some place =>
    if (tree.get? place).isSome then throw .alreadyExists
    else return tree.insert place .directory

/--
Makes sure that a pathname leads to a directory, if the attempt to make one there failed for some
reason other than a missing parent.
-/
def acceptDirectory (tree : Tree) (p : Pathname) (code : SystemErrorCode) :
    Except SystemError Unit :=
  match tree.isDirectory p with
  | .ok true => .ok ()
  | .ok false => .error (errorAt p code)
  | .error code => .error (errorAt p code)

/-- Makes a directory unless it is there, and the directories it is in; `names` is reversed. -/
def makeDirectories (tree : Tree) (start : Start) (names : List String) :
    Except SystemError Unit × Tree :=
  let p : Pathname := ⟨start, names.reverse⟩
  match tree.makeDirectory p with
  | .ok tree => (.ok (), tree)
  | .error .noEntry =>
    match names with
    | [] => (.error (errorAt p .noEntry), tree)
    | _ :: outer =>
      match tree.makeDirectories start outer with
      | (.error e, tree) => (.error e, tree)
      | (.ok _, tree) =>
        match tree.makeDirectory p with
        | .ok tree => (.ok (), tree)
        | .error .noEntry => (.error (errorAt p .noEntry), tree)
        | .error code => (tree.acceptDirectory p code, tree)
  | .error code => (tree.acceptDirectory p code, tree)

def writeFile (tree : Tree) (p : Pathname) (bytes : ByteArray) : Except SystemErrorCode Tree := do
  let place ← tree.followFrom true p p.names
  if tree.hasDirectory place then throw .isDirectory
  return tree.insert place (.file bytes)

def unlink (tree : Tree) (p : Pathname) : Except SystemErrorCode Tree := do
  match ← tree.entry? p with
  | none => throw .isDirectory
  | some place =>
    match tree.get? place with
    | none => throw .noEntry
    | some .directory => throw .isDirectory
    | some _ => return tree.erase place

def fileAt (tree : Tree) (p : Pathname) : Except SystemErrorCode (Place × Node) := do
  match ← tree.entry? p with
  | none => throw .isDirectory
  | some place =>
    match tree.get? place with
    | none => throw .noEntry
    | some .directory => throw .isDirectory
    | some node => return (place, node)

def hardLink (tree : Tree) (source target : Pathname) : Except SystemErrorCode Tree := do
  let (_, node) ← tree.fileAt source
  match ← tree.entry? target with
  | none => throw .alreadyExists
  | some place =>
    if (tree.get? place).isSome then throw .alreadyExists
    else return tree.insert place node

/-- Gives a file another name, instead of any file that has it. -/
def rename (tree : Tree) (source target : Pathname) : Except SystemErrorCode Tree := do
  match ← tree.entry? target with
  | none => throw .busy
  | some place =>
    let (old, node) ← tree.fileAt source
    if place.isSuffixOf old && place ≠ old then throw .notEmpty
    if tree.hasDirectory place then throw .isDirectory
    else return (tree.erase old).insert place node

/-- Makes a symbolic link. It must lead somewhere. -/
def makeLink (tree : Tree) (p : Pathname) (target : String) : Except SystemErrorCode Tree := do
  if target = "" then throw .noEntry
  if maxPathname ≤ target.utf8ByteSize then throw .nameTooLong
  match ← tree.entry? p with
  | none => throw .alreadyExists
  | some place =>
    if (tree.get? place).isSome then throw .alreadyExists
    else return tree.insert place (.link target)

/-- Removes whatever is at a pathname, a directory with all that is in it. -/
def removeAll (tree : Tree) (p : Pathname) : Except SystemErrorCode Tree := do
  match ← tree.entry? p with
  | none => throw .busy
  | some place =>
    if (tree.get? place).isNone then throw .noEntry
    else
      return (tree.nodes.keys.filter (place.isSuffixOf ·)).foldl erase tree

end Tree

end Depot.Files
