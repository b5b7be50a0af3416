import Depot.Proofs.Action

/-!
This module contains actions that come to the same: they leave the same world, and give the same, or
raise what only differs in the names it tells.
-/

namespace Depot

/-- An error of a store without what it tells of the store and the name. -/
def StorageError.unnamed (error : StorageError) : StorageError :=
  { error with url := none, name := none }

def Reason.unnamed : Reason → Reason
  | .storage error => .storage error.unnamed
  | reason => reason

def Failure.unnamed (failure : Failure) : Failure :=
  ⟨failure.reason.unnamed, failure.cause.map Reason.unnamed⟩

namespace Action

variable {α β : Type} {act act' : Action α} {next next' : α → Action β} {world world' : World}
  {failure failure' : Failure} {result result' : Except Failure α}

theorem Yields.get_bind_same {next : World → Action β} {result : Except Failure β}
    (h : (next world).Yields world result world')
    (hsame : ∀ records, next (world.withRecords records) = next world) :
    (get >>= next).Yields world result world' := by
  apply Yields.get_bind
  intro records
  rw [hsame]
  exact h

/-- Whether it does not depend on the records what an action gives and leaves. -/
def Settles (act : Action α) (world : World) : Prop :=
  ∃ result world', act.Yields world result world'

namespace Settles

theorem of_yields (h : act.Yields world result world') : act.Settles world :=
  ⟨result, world', h⟩

theorem bind (h : act.Settles world) (hnext : ∀ a world', (next a).Settles world') :
    (act >>= next).Settles world := by
  obtain ⟨result, world', hact⟩ := h
  cases result with
  | error failure => exact of_yields hact.bind_error
  | ok a =>
    obtain ⟨result', world'', hthen⟩ := hnext a world'
    exact of_yields (hact.bind hthen)

theorem get_bind {next : World → Action β} (h : (next world).Settles world)
    (hsame : ∀ records, next (world.withRecords records) = next world) :
    (get >>= next).Settles world := by
  obtain ⟨result, world', hnext⟩ := h
  exact of_yields (hnext.get_bind_same hsame)

theorem attempt (h : act.Settles world) : act.attempt.Settles world := by
  obtain ⟨result, world', hact⟩ := h
  exact of_yields hact.attempt

theorem pure (a : α) (world : World) : (Pure.pure a : Action α).Settles world :=
  of_yields (.pure a world)

theorem throw (failure : Failure) (world : World) : (throw failure : Action α).Settles world :=
  of_yields (.throw failure world)

theorem andFinally {last : Action Unit} (h : act.Settles world)
    (hlast : ∀ world', last.Settles world') :
    (act.andFinally last).Settles world := by
  unfold Action.andFinally
  refine h.attempt.bind fun result world' => ?_
  exact (hlast world').bind fun _ world'' => of_yields (.ofResult result world'')

end Settles

/-- Whether an action leaves its world as it is, but for the records. -/
def Keeps (act : Action α) (world : World) : Prop :=
  ∃ result, act.Yields world result world

namespace Keeps

theorem of_yields (h : act.Yields world result world) : act.Keeps world :=
  ⟨result, h⟩

theorem settles (h : act.Keeps world) : act.Settles world := by
  obtain ⟨result, hact⟩ := h
  exact .of_yields hact

theorem bind (h : act.Keeps world) (hnext : ∀ a, (next a).Keeps world) :
    (act >>= next).Keeps world := by
  obtain ⟨result, hact⟩ := h
  cases result with
  | error failure => exact of_yields hact.bind_error
  | ok a =>
    obtain ⟨result', hthen⟩ := hnext a
    exact of_yields (hact.bind hthen)

theorem get_bind {next : World → Action β} (h : (next world).Keeps world)
    (hsame : ∀ records, next (world.withRecords records) = next world) :
    (get >>= next).Keeps world := by
  obtain ⟨result, hnext⟩ := h
  exact of_yields (hnext.get_bind_same hsame)

theorem attempt (h : act.Keeps world) : act.attempt.Keeps world := by
  obtain ⟨result, hact⟩ := h
  exact of_yields hact.attempt

theorem pure (a : α) (world : World) : (Pure.pure a : Action α).Keeps world :=
  of_yields (.pure a world)

theorem throw (failure : Failure) (world : World) : (throw failure : Action α).Keeps world :=
  of_yields (.throw failure world)

theorem note (level : Level) (topic : Topic) (message : String) (world : World) :
    (Depot.note level topic message).Keeps world :=
  of_yields (note_yields _ _ _ world)

theorem ofResult (result : Except Failure α) (world : World) :
    (Action.ofResult result).Keeps world :=
  of_yields (.ofResult result world)

theorem traced {operation : Tracing.Operation} {backend : String} {name : Option String}
    {summarize : α → Except Failure (List Tracing.Attribute)} (h : act.Keeps world) :
    (Depot.traced operation backend name summarize act).Keeps world := by
  obtain ⟨result, hact⟩ := h
  exact of_yields (traced_yields hact)

end Keeps

/-- Whether two actions come to the same in a world. -/
def Alike (act act' : Action α) (world : World) : Prop :=
  ∃ result result' world', act.Yields world result world' ∧ act'.Yields world result' world'
    ∧ result'.mapError Failure.unnamed = result.mapError Failure.unnamed

namespace Alike

theorem of_settles (h : act.Settles world) : act.Alike act world := by
  obtain ⟨result, world', hact⟩ := h
  exact ⟨result, result, world', hact, hact, rfl⟩

theorem of_yields (h : act.Yields world result world') (h' : act'.Yields world result' world')
    (hsame : result'.mapError Failure.unnamed = result.mapError Failure.unnamed) :
    act.Alike act' world :=
  ⟨result, result', world', h, h', hsame⟩

theorem throw (h : failure'.unnamed = failure.unnamed) (world : World) :
    Alike (throw failure : Action α) (throw failure') world :=
  of_yields (.throw failure world) (.throw failure' world) (congrArg Except.error h)

theorem note (level : Level) (topic : Topic) (message message' : String) (world : World) :
    Alike (Depot.note level topic message) (Depot.note level topic message') world :=
  of_yields (note_yields _ _ _ world) (note_yields _ _ _ world) rfl

theorem bind (h : act.Alike act' world) (hnext : ∀ a world', (next a).Alike (next' a) world') :
    (act >>= next).Alike (act' >>= next') world := by
  obtain ⟨result, result', world', hact, hact', hsame⟩ := h
  cases result with
  | error failure =>
    cases result' with
    | error failure' =>
      have hunnamed : failure'.unnamed = failure.unnamed := Except.error.inj hsame
      exact of_yields hact.bind_error hact'.bind_error (congrArg Except.error hunnamed)
    | ok a => cases hsame
  | ok a =>
    cases result' with
    | error failure' => cases hsame
    | ok a' =>
      have ha : a' = a := Except.ok.inj hsame
      subst ha
      obtain ⟨result, result', world'', hthen, hthen', hsame'⟩ := hnext a' world'
      exact of_yields (hact.bind hthen) (hact'.bind hthen') hsame'

theorem get_bind {next next' : World → Action β} (h : (next world).Alike (next' world) world)
    (hsame : ∀ records, next (world.withRecords records) = next world)
    (hsame' : ∀ records, next' (world.withRecords records) = next' world) :
    (get >>= next).Alike (get >>= next') world := by
  obtain ⟨result, result', world', hnext, hnext', halike⟩ := h
  exact of_yields (hnext.get_bind_same hsame) (hnext'.get_bind_same hsame') halike

theorem traced {operation : Tracing.Operation} {backend backend' : String}
    {name name' : Option String} {summarize : α → Except Failure (List Tracing.Attribute)}
    (h : act.Alike act' world) :
    (Depot.traced operation backend name summarize act).Alike
      (Depot.traced operation backend' name' summarize act') world := by
  obtain ⟨result, result', world', hact, hact', hsame⟩ := h
  exact of_yields (traced_yields hact) (traced_yields hact') hsame

end Alike

end Action

open Depot.Action

theorem conditionalWrite_settles {perform : Action Unit} {world : World}
    (h : perform.Settles world) (overwrite : Bool) (collides : Failure → Except Failure Bool)
    (key : String) : (conditionalWrite perform overwrite collides key).Settles world := by
  obtain ⟨result, world', hperform⟩ := h
  cases result with
  | ok done => exact .of_yields (conditionalWrite_yields_of_ok hperform)
  | error failure => exact .of_yields (conditionalWrite_yields_of_error hperform)

end Depot
