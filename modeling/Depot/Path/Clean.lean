import Depot.Text.Basic

/-!
This module contains clean paths: slash-separated text without empty and dot components, in which
double dots are left only where there is nothing above them to leave. `cleanJoin` brings any
sequence of parts into that form.
-/

namespace Depot.Path

abbrev Component := List Char

def here : Component := ['.']

def up : Component := ['.', '.']

/--
One step of the normalisation. The components kept so far stand nearest first; above the root
there is only the root.
-/
def step (rooted : Bool) (kept : List Component) (c : Component) : List Component :=
  if c = [] ∨ c = here then
    kept
  else if c = up then
    match kept with
    | [] => if rooted then [] else [up]
    | k :: rest => if k = up then up :: kept else rest
  else
    c :: kept

def normalize (rooted : Bool) (cs : List Component) : List Component :=
  (cs.foldl (step rooted) []).reverse

/-- The text of a path; a path without components is the root or the dot. -/
def render (rooted : Bool) (cs : List Component) : List Char :=
  match rooted, cs with
  | true, cs => '/' :: Text.joinWith '/' cs
  | false, [] => here
  | false, cs => Text.joinWith '/' cs

def isRooted (cs : List Char) : Bool :=
  cs.head? = some '/'

def cleanChars (cs : List Char) : List Char :=
  render (isRooted cs) (normalize (isRooted cs) (Text.splitOn '/' cs))

/--
The parts joined by slashes and cleaned. Empty parts are ignored, and if all are empty so is the
result.
-/
def cleanJoin (parts : List String) : String :=
  match parts.filter (· ≠ "") with
  | [] => ""
  | parts => String.ofList (cleanChars (Text.joinWith '/' (parts.map String.toList)))

end Depot.Path
