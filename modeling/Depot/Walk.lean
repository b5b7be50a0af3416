import Depot.Cloud.Call
import Depot.Failure

/-!
This module contains walks: visits of the names of listed keys, one after the other. A listing is
lazy; a walk takes from it only what it gets to.
-/

namespace Depot

inductive Item where
  | call (call : Cloud.Call)
  | key (key : String)
  | failed (failure : Failure)

/-- A listing. After its items it has ended. -/
abbrev Listing := List Item

def Listing.ofKeys (keys : List String) : Listing :=
  keys.map .key

/-- What the caller of a walk does. Both parts depend on the names visited so far, latest first. -/
structure Visitor where
  /-- The failure the visitor raises at the latest name, if it does. -/
  reply : List String → Option Failure := fun _ => none
  cancelled : List String → Bool := fun _ => false

inductive WalkEnd where
  | exhausted
  | stopped
  | failed (failure : Failure)

/-- How the walk ends if the visitor raises something. -/
def WalkEnd.ofFailure (failure : Failure) : WalkEnd :=
  match failure.reason with
  | .stopWalk _ => .stopped
  | _ => .failed failure

structure Visit where
  key : String
  name : String
deriving DecidableEq, Repr

structure Walk where
  visits : List Visit := []
  stop : WalkEnd
  pulled : Nat := 0
  calls : List Cloud.Call := []
  closings : Nat := 0

namespace Walk

def names (w : Walk) : List String :=
  w.visits.map Visit.name

def cancelledFailure : Failure :=
  .ofStorage { kind := .walkCancelled }

/-- A walk that ends without another visit. It closes the listing. -/
def ending (stop : WalkEnd) : Walk :=
  { stop, closings := 1 }

def afterCall (call : Cloud.Call) (w : Walk) : Walk :=
  { w with calls := call :: w.calls }

def afterPull (w : Walk) : Walk :=
  { w with pulled := w.pulled + 1 }

def afterVisit (visit : Visit) (w : Walk) : Walk :=
  { w with visits := visit :: w.visits, pulled := w.pulled + 1 }

def isBefore (offset : Option String) (key : String) : Bool :=
  offset.any (key < ·)

/-- The walk through the rest of a listing; `seen` are the names visited before, latest first. -/
def run (toName : String → String) (offset : Option String) (visitor : Visitor) :
    (seen : List String) → Listing → Walk
  | _, [] => ending .exhausted
  | seen, .call call :: rest => (run toName offset visitor seen rest).afterCall call
  | _, .failed failure :: _ => (ending (.failed failure)).afterPull
  | seen, .key key :: rest =>
    if visitor.cancelled seen then (ending (.failed cancelledFailure)).afterPull
    else if isBefore offset key then (run toName offset visitor seen rest).afterPull
    else
      let name := toName key
      match visitor.reply (name :: seen) with
      | some failure => (ending (WalkEnd.ofFailure failure)).afterVisit ⟨key, name⟩
      | none => (run toName offset visitor (name :: seen) rest).afterVisit ⟨key, name⟩

/-- The number of visits, unless the walk failed. -/
def result (w : Walk) : Except Failure Nat :=
  match w.stop with
  | .exhausted | .stopped => .ok w.visits.length
  | .failed failure => .error failure

def remark? (w : Walk) : Option String :=
  match w.stop with
  | .stopped => some ("Walk stopped by visitor after " ++ toString w.visits.length ++ " objects")
  | .exhausted | .failed _ => none

/-- The visitor that ends the walk after `limit` names. -/
def collector (limit : Int) : Visitor where
  reply names := if limit ≤ names.length then some { reason := .stopWalk "" } else none

/-- The walk for the first `limit` names, if there are any to visit. -/
def first? {α : Type} (limit : Int) (walk : Visitor → α) : Option α :=
  if limit ≤ 0 then none else some (walk (collector limit))

end Walk

end Depot
