import Depot.World

/-!
This module contains the policy of writing once. A store that may not replace objects writes under
the condition that there is no object; if there is one, the write is skipped, and that is no
failure.
-/

namespace Depot

/--
Performs a write under the policy. `collides` tells whether a failure means that the object is
there; telling may fail itself.
-/
def conditionalWrite (perform : Action Unit) (overwrite : Bool)
    (collides : Failure → Except Failure Bool) (key : String) : Action Bool := do
  if overwrite then
    perform
    return true
  else
    match ← perform.attempt with
    | .ok _ => return true
    | .error failure =>
      if failure.interrupts then throw failure
      else if ← Action.ofResult (collides failure) then
        note .debug .policy ("Write skipped, object already exists: key=" ++ key)
        return false
      else throw failure

end Depot
