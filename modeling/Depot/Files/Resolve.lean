import Depot.Failure
import Depot.Files.Tree

/-!
This module contains the resolution of pathnames: the place a pathname would lead to if everything
missing on its way were there. No link is left in it, as long as it is not too long for the system.
-/

namespace Depot.Files

inductive Resolved where
  | place (place : Place)
  /-- A link at `place` leads back to itself; `rest` was not followed. -/
  | cycle (place : Place) (rest : List String)

namespace Tree

def isDots (name : String) : Bool :=
  name = "." || name = ".."

/-- The place after one component that is no link. Above the root there is only the root. -/
def enter (place : Place) (name : String) : Place :=
  if name = "." then place
  else if name = ".." then place.tail
  else name :: place

/-- The target of the link at a place. A link whose own pathname is too long is not seen as one. -/
def linkAt? (tree : Tree) (place : Place) : Option String :=
  match tree.get? place with
  | some (.link target) => if takes place.pathname then some target else none
  | _ => none

/--
Resolves names from a place. The links in `active` are being followed already; at most `depth` more
may be followed within one another.
-/
def resolveNames (tree : Tree) (depth : Nat) (active : List Place) (place : Place)
    (names : List String) : Resolved :=
  match names with
  | [] => .place place
  | name :: rest =>
    if isDots name then tree.resolveNames depth active (enter place name) rest
    else
      let next := name :: place
      match tree.linkAt? next with
      | some target =>
        if active.contains next then .cycle next rest
        else
          match depth with
          | 0 => .cycle next rest
          | depth + 1 =>
            match tree.resolveNames depth (next :: active) (linkStart place target)
                (linkNames target) with
            | .cycle place pending => .cycle place (pending ++ rest)
            | .place place => tree.resolveNames (depth + 1) active place rest
      | none => tree.resolveNames depth active next rest
termination_by (depth, names.length)

/-- The place a pathname resolves to. What follows a cycle of links is taken by name. -/
def resolvedPlace (tree : Tree) (p : Pathname) : Place :=
  match tree.resolveNames tree.nodes.entries.length [] (tree.startOf p) p.names with
  | .place place => place
  | .cycle place rest => rest.foldl enter place

/-- The place a pathname resolves to, unless it holds a zero character or ends in a cycle. -/
def resolve (tree : Tree) (p : Pathname) : Except Failure Place :=
  if p.holdsZero then .error { reason := .malformed .zeroByte }
  else
    let place := tree.resolvedPlace p
    match tree.locate place.pathname with
    | .error .tooManyLinks => .error { reason := .linkCycle place.render }
    | _ => .ok place

end Tree

end Depot.Files
