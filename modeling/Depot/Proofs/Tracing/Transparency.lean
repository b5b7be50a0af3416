import Depot.Proofs.Store.Opening
import Depot.Proofs.Tracing.Calls
import Depot.Proofs.Tracing.Layers

/-!
This module contains runs of commands on stores and on the readers that they open. What they do does
not depend on who observes them: not on the journal, for which readers get a hook, and not on spans.
-/

namespace Depot

open Depot.Action

namespace Store

/-- A reply as it shows to the caller, who sees no hook that announces the closing of a reader. -/
def Reply.shown : Reply → Reply
  | opened reader => opened reader.bared
  | reply => reply

section Announcements

variable {body : HookRun → PUnit → Action (ForInStep PUnit)}

end Announcements

section Opening

variable {store : Store} {name : String} {world world' : World} {reader : Reader}

end Opening

end Store

structure Held where
  store : Store
  reader : Reader

def Held.bared (held : Held) : Held :=
  ⟨held.store, held.reader.bared⟩

structure Desk where
  stores : List Store
  readers : List Held
  world : World

inductive Command where
  /-- A call of a traced operation, in which calls on the provider may meet a failure. -/
  | call (store : Nat) (call : Store.Call) (fault : Option (String × Failure))
  | readBytes (store : Nat) (name : String) (fault : Option (String × Failure))
  | subStore (store : Nat) (segment : String) (fault : Option (String × Failure))
  | wrap (reader : Nat) (failure : Option Failure)
  | use (reader depth : Nat) (use : Use)

inductive Seen where
  | missing
  | replied (result : Except Failure Store.Reply)
  | body (result : Except Failure ByteArray)
  | store (result : Except Failure Store)
  | wrapped
  | used (result : Except Failure Delivery) (ran : List HookRun) (closed rawClosed : Bool)

namespace Desk

def taken (store : Store) (result : Except Failure Store.Reply) (readers : List Held) :
    List Held :=
  match result with
  | .ok (.opened reader) => readers ++ [⟨store, reader⟩]
  | _ => readers

def onto {α : Type} (desk : Desk) (handle : Option α) (act : α → Seen × Desk) : Seen × Desk :=
  match handle with
  | some a => act a
  | none => (.missing, desk)

def call (desk : Desk) (call : Store.Call) (store : Store) : Seen × Desk :=
  let done := (call.perform store).perform desk.world
  (.replied (done.1.map Store.Reply.shown),
    { desk with readers := taken store done.1 desk.readers, world := done.2 })

def readBytes (desk : Desk) (name : String) (store : Store) : Seen × Desk :=
  let done := (store.readBytes name).perform desk.world
  (.body done.1, { desk with world := done.2 })

def subStore (desk : Desk) (segment : String) (store : Store) : Seen × Desk :=
  let done := (store.subStore segment).perform desk.world
  (.store done.1, { desk with stores := desk.stores ++ done.1.toOption.toList, world := done.2 })

def wrap (desk : Desk) (i : Nat) (failure : Option Failure) (held : Held) : Seen × Desk :=
  (.wrapped,
    { desk with readers := desk.readers.set i ⟨held.store, held.reader.wrap { failure }⟩ })

def use (desk : Desk) (i depth : Nat) (use : Use) (held : Held) : Seen × Desk :=
  let used := Reader.through { held.reader with ran := [] } depth use
  let done := (held.store.finish used).perform desk.world
  (.used done.1 used.2.bared.ran (used.2.inside (used.2.around depth)).isClosed used.2.rawClosed,
    { desk with readers := desk.readers.set i ⟨held.store, used.2⟩, world := done.2 })

def meeting (desk : Desk) (fault : Option (String × Failure)) : Desk :=
  { desk with world := desk.world.meeting fault }

section Worlds

variable (desk : Desk) (store : Store)

end Worlds

def step (desk : Desk) : Command → Seen × Desk
  | .call i call fault => desk.onto desk.stores[i]? ((desk.meeting fault).call call)
  | .readBytes i name fault => desk.onto desk.stores[i]? ((desk.meeting fault).readBytes name)
  | .subStore i segment fault => desk.onto desk.stores[i]? ((desk.meeting fault).subStore segment)
  | .wrap i failure => desk.onto desk.readers[i]? (desk.wrap i failure)
  | .use i depth use => desk.onto desk.readers[i]? (desk.use i depth use)

def run (desk : Desk) : List Command → List Seen × Desk
  | [] => ([], desk)
  | command :: commands =>
    let (seen, desk) := desk.step command
    let (later, desk) := run desk commands
    (seen :: later, desk)

def plain (desk : Desk) : Desk where
  stores := desk.stores
  readers := desk.readers.map Held.bared
  world := desk.world.silent

structure Proper (desk : Desk) : Prop where
  readers : ∀ held ∈ desk.readers, held.reader.Proper

variable {desk : Desk}

theorem Proper.meeting (h : desk.Proper) (fault : Option (String × Failure)) :
    (desk.meeting fault).Proper :=
  ⟨h.readers⟩

end Desk

structure Made where
  store : Store
  call : Store.Call
  world : World

namespace Made

def span (made : Made) : Tracing.Span :=
  made.call.span made.store made.world

end Made

namespace Desk

variable {desk : Desk}

/-- The traced calls that a command makes, those first that end first. -/
def made (desk : Desk) : Command → List Made
  | .call i call fault =>
    desk.stores[i]?.elim [] fun store =>
      (call.inner (desk.world.meeting fault) ++ [call]).map (⟨store, ·, desk.world.meeting fault⟩)
  | .readBytes i name fault =>
    desk.stores[i]?.elim [] fun store => [⟨store, .openReader name, desk.world.meeting fault⟩]
  | .subStore _ _ _ | .wrap _ _ | .use _ _ _ => []

def start (stores : List Store) (world : World) : Desk :=
  ⟨stores, [], world⟩

section Sample

end Sample

end Desk

end Depot
