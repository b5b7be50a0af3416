import Depot.Text.Basic

/-!
This module contains the names by which files are reached: components below the root or below the
current directory. `parse` drops what does not matter to where a name leads, and `ofText` keeps
what matters to whether it leads anywhere.
-/

namespace Depot.Files

inductive Start where
  | current
  | root
  | doubleRoot
deriving DecidableEq, Repr

def Start.render : Start → String
  | current => ""
  | root => "/"
  | doubleRoot => "//"

structure Pathname where
  start : Start
  /-- The components, the outermost first. -/
  names : List String
deriving DecidableEq, Repr

namespace Pathname

def startOf (cs : List Char) : Start :=
  match cs with
  | '/' :: '/' :: '/' :: _ => .root
  | '/' :: '/' :: _ => .doubleRoot
  | '/' :: _ => .root
  | _ => .current

def components (cs : List Char) : List String :=
  ((Text.splitOn '/' cs).filter (!·.isEmpty)).map String.ofList

def parse (text : String) : Pathname :=
  ⟨startOf text.toList, (components text.toList).filter (· ≠ ".")⟩

/-- The pathname exactly as a text gives it. A slash at its end asks for a directory. -/
def ofText (text : String) : Pathname :=
  let names := components text.toList
  ⟨startOf text.toList,
    if Text.endsWith "/" text && !names.isEmpty then names ++ ["."] else names⟩

def render (p : Pathname) : String :=
  let text := p.start.render ++ "/".intercalate p.names
  if text = "" then "." else text

/-- The last component; the root has none. -/
def name (p : Pathname) : String :=
  p.names.getLastD ""

def parent (p : Pathname) : Pathname :=
  { p with names := p.names.dropLast }

def child (p : Pathname) (name : String) : Pathname :=
  { p with names := p.names ++ [name] }

def descend (p : Pathname) (names : List String) : Pathname :=
  { p with names := p.names ++ names }

def holdsZero (p : Pathname) : Bool :=
  p.names.any fun name => name.toList.any (· = '\x00')

end Pathname

end Depot.Files
