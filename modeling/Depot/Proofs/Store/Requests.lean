import Depot.Proofs.Store.Operations

/-!
This module contains requests to a store, what they show to their caller, and sequences of them.
-/

namespace Depot

open Depot.Action

inductive Answer where
  | flag (b : Bool)
  | body (bytes : ByteArray)
  | done
  | names (names : List String)
  | walked (names : List String) (result : Except Failure Nat)
  | absent
  | failed (failure : Failure)

namespace Answer

variable {α : Type} {act : Action α} {render : α → Answer} {result : Except Failure α}
  {world world' : World}

/-- What the result of an operation shows. Of a missing object it shows no more than that. -/
def of (render : α → Answer) (result : Except Failure α) : Answer :=
  match result with
  | .ok a => render a
  | .error failure => if failure.isNotFound then .absent else .failed failure

def ofWalk (walk : Walk) : Answer :=
  .walked walk.names walk.result

theorem of_notFound (render : α → Answer) (store : Store) (name : String) (cause : Option Reason) :
    of render (.error (store.notFound name cause)) = .absent := rfl

theorem ofWalk_eq_of_shown {walk walk' : Walk} (hnames : walk.names = walk'.names)
    (hresult : walk.result = walk'.result) : ofWalk walk = ofWalk walk' := by
  unfold ofWalk
  rw [hnames, hresult]

def after (render : α → Answer) (act : Action α) (world : World) : Answer × World :=
  (of render (act.perform world).1, (act.perform world).2)

theorem after_of_yields (render : α → Answer) (h : act.Yields world result world') :
    ∃ records, after render act world = (of render result, world'.withRecords records) := by
  obtain ⟨records, hperform⟩ := h.perform_eq
  refine ⟨records, ?_⟩
  unfold after
  rw [hperform]

end Answer

inductive Request where
  | write (name : String) (source : Source) (overwrite : Option Bool)
  | read (name : String)
  | contains (name : String)
  | delete (name : String)
  | list (under : String) (limit : Int) (told : Option String)
  | walk (under : String) (visitor : Visitor)
  | walkFrom (under start : String) (visitor : Visitor)

namespace Request

def perform (store : Store) : Request → World → Answer × World
  | .write name source overwrite => Answer.after .flag (store.write name source overwrite)
  | .read name => Answer.after .body (store.readBytes name)
  | .contains name => Answer.after .flag (store.contains name)
  | .delete name => Answer.after (fun _ => .done) (store.delete name)
  | .list under limit told => Answer.after .names (store.list under limit told)
  | .walk under visitor => Answer.after .ofWalk (store.walk under visitor)
  | .walkFrom under start visitor => Answer.after .ofWalk (store.walkFrom under start visitor)

end Request

namespace Store

def serve (store : Store) : List Request → World → List Answer × World
  | [], world => ([], world)
  | request :: requests, world =>
    let (answer, world) := request.perform store world
    let (answers, world) := serve store requests world
    (answer :: answers, world)

theorem serve_append (store : Store) (requests more : List Request) (world : World) :
    store.serve (requests ++ more) world
      =
    ((store.serve requests world).1 ++ (store.serve more (store.serve requests world).2).1,
      (store.serve more (store.serve requests world).2).2) := by
  induction requests generalizing world with
  | nil => rfl
  | cons request requests ih =>
    rw [List.cons_append]
    simp only [serve]
    rw [ih]
    rfl

end Store

end Depot
