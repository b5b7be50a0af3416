import Depot.Path.Clean

/-!
This module contains the bounds of a listing: the text every listed key starts with, and the
first key a resumed walk may visit.
-/

namespace Depot.Path

/--
The text every key listed under `under` starts with. The base ends with a slash, so that siblings
sharing its name as a prefix are not listed; a slash at the end of `under` is kept for the same
reason.
-/
def queryPrefix (base under : String) : String :=
  let query := if base = "" then "" else base ++ "/"
  if under = "" then query
  else
    let joined := cleanJoin [query, under]
    if Text.endsWith "/" under then joined ++ "/" else joined

/-- The first key that a walk resumed at `start` may visit; none if it starts at the beginning. -/
def startOffset? (query start : String) : Option String :=
  if start = "" then none else some (cleanJoin [query, start])

/--
A key to list after, for providers whose lower bound is exclusive: the offset without its last
character, which sorts before every key from the offset on.
-/
def startAfter? (offset : Option String) : Option String :=
  match offset with
  | none => none
  | some offset =>
    if offset.length < 2 then none else some (String.ofList offset.toList.dropLast)

end Depot.Path
