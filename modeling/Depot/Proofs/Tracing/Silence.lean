import Depot.Proofs.Action

/-!
This module contains worlds in which nothing is recorded, and what it takes for an action to do there
what it does elsewhere. An action that is not traced leaves no spans, and one that is leaves one.
-/

namespace Depot

namespace World

def silent (world : World) : World :=
  { world with
    environment := []
    debug := false
    provider := none
    digest := id
    journal := []
    spans := [] }

structure Observers where
  environment : Environment
  debug : Bool
  provider : Option Tracing.Provider
  digest : String → String

def observers (world : World) : Observers :=
  ⟨world.environment, world.debug, world.provider, world.digest⟩

@[simp]
theorem silent_tree (world : World) : world.silent.tree = world.tree := rfl

@[simp]
theorem silent_bucket (world : World) : world.silent.bucket = world.bucket := rfl

@[simp]
theorem silent_fault (world : World) : world.silent.fault = world.fault := rfl

theorem records_silent (world : World) : world.silent.records = false := by
  unfold records
  exact Bool.and_false _

theorem records_of_observers {world world' : World} (h : world'.observers = world.observers) :
    world'.records = world.records := by
  obtain ⟨henvironment, -, hprovider, -⟩ := Observers.mk.inj h
  unfold records
  rw [henvironment, hprovider]

end World

namespace Action

variable {α β : Type} {act act' : Action α} {next next' : α → Action β} {world world' : World}

/--
Whether an action is observed without effect: another one gives in the silent world what it gives and
leaves what it leaves, and who observes stays the same.
-/
structure Transparent (act act' : Action α) (world : World) : Prop where
  perform_eq : act'.perform world.silent = ((act.perform world).1, (act.perform world).2.silent)
  observers_eq : (act.perform world).2.observers = world.observers

structure Untraced (act act' : Action α) (world : World) : Prop extends
    Transparent act act' world where
  spans_eq : (act.perform world).2.spans = world.spans

structure Emits (act : Action α) (spans : List Tracing.Span) (world : World) : Prop extends
    Transparent act act world where
  spans_eq : world.records = true → (act.perform world).2.spans = world.spans ++ spans

namespace Transparent

theorem bind (h : act.Transparent act' world)
    (hnext : ∀ a world, (next a).Transparent (next' a) world) :
    (act >>= next).Transparent (act' >>= next') world := by
  obtain ⟨hact, hobservers⟩ := h
  rcases hperform : act.perform world with ⟨result, world'⟩
  rw [hperform] at hact hobservers
  cases result with
  | error failure =>
    refine ⟨?_, ?_⟩
    · rw [perform_bind_of_error hact, perform_bind_of_error hperform]
    · rw [perform_bind_of_error hperform]
      exact hobservers
  | ok a =>
    refine ⟨?_, ?_⟩
    · rw [perform_bind_of_ok hact, perform_bind_of_ok hperform]
      exact (hnext a world').perform_eq
    · rw [perform_bind_of_ok hperform, (hnext a world').observers_eq]
      exact hobservers

theorem get_bind {next next' : World → Action β}
    (h : (next world).Transparent (next' world.silent) world) :
    (get >>= next).Transparent (get >>= next') world := by
  refine ⟨?_, ?_⟩
  · rw [perform_get_bind, perform_get_bind]
    exact h.perform_eq
  · rw [perform_get_bind]
    exact h.observers_eq

end Transparent

namespace Untraced

theorem pure (a : α) (world : World) :
    Untraced (Pure.pure a : Action α) (Pure.pure a) world :=
  ⟨⟨rfl, rfl⟩, rfl⟩

theorem throw (failure : Failure) (world : World) :
    Untraced (throw failure : Action α) (throw failure) world :=
  ⟨⟨rfl, rfl⟩, rfl⟩

theorem ofResult (result : Except Failure α) (world : World) :
    (Action.ofResult result).Untraced (Action.ofResult result) world :=
  ⟨⟨rfl, rfl⟩, rfl⟩

theorem modify {f : World → World} (hsilent : f world.silent = (f world).silent)
    (hobservers : (f world).observers = world.observers) (hspans : (f world).spans = world.spans) :
    Untraced (modify f : Action PUnit) (modify f) world := by
  refine ⟨⟨?_, hobservers⟩, hspans⟩
  rw [perform_modify, perform_modify, hsilent]

theorem set {world₁ world₂ : World} (hsilent : world₂ = world₁.silent)
    (hobservers : world₁.observers = world.observers) (hspans : world₁.spans = world.spans) :
    Untraced (set world₁ : Action PUnit) (set world₂) world := by
  subst hsilent
  exact ⟨⟨rfl, hobservers⟩, hspans⟩

theorem bind (h : act.Untraced act' world)
    (hnext : ∀ a world, (next a).Untraced (next' a) world) :
    (act >>= next).Untraced (act' >>= next') world := by
  refine ⟨h.toTransparent.bind fun a world => (hnext a world).toTransparent, ?_⟩
  rcases hperform : act.perform world with ⟨result, world'⟩
  have hspans := h.spans_eq
  rw [hperform] at hspans
  cases result with
  | error failure =>
    rw [perform_bind_of_error hperform]
    exact hspans
  | ok a =>
    rw [perform_bind_of_ok hperform, (hnext a world').spans_eq]
    exact hspans

theorem throw_bind (failure : Failure) :
    ((MonadExcept.throw failure : Action α) >>= next).Untraced
      ((MonadExcept.throw failure : Action α) >>= next') world := by
  have hthrow : ∀ world, (MonadExcept.throw failure : Action α).perform world
      = (.error failure, world) := fun world => rfl
  refine ⟨⟨?_, ?_⟩, ?_⟩
  · rw [perform_bind_of_error (hthrow _), perform_bind_of_error (hthrow _)]
  · rw [perform_bind_of_error (hthrow _)]
  · rw [perform_bind_of_error (hthrow _)]

theorem get_bind {next next' : World → Action β}
    (h : (next world).Untraced (next' world.silent) world) :
    (get >>= next).Untraced (get >>= next') world := by
  refine ⟨h.toTransparent.get_bind, ?_⟩
  rw [perform_get_bind]
  exact h.spans_eq

theorem attempt (h : act.Untraced act' world) : act.attempt.Untraced act'.attempt world := by
  refine ⟨⟨?_, ?_⟩, ?_⟩
  · rw [perform_attempt, perform_attempt, h.perform_eq]
  · rw [perform_attempt]
    exact h.observers_eq
  · rw [perform_attempt]
    exact h.spans_eq

theorem andFinally {last last' : Action Unit} (h : act.Untraced act' world)
    (hlast : ∀ world, last.Untraced last' world) :
    (act.andFinally last).Untraced (act'.andFinally last') world := by
  unfold Action.andFinally
  refine h.attempt.bind fun result world => ?_
  exact (hlast world).bind fun _ world => .ofResult result world

theorem note (level : Level) (topic : Topic) (message : String) (world : World) :
    (note level topic message).Untraced (note level topic message) world := by
  have hsilent : world.silent.debug = false := rfl
  unfold Depot.note
  refine .modify ?_ ?_ ?_
  · rw [hsilent, if_neg Bool.false_ne_true]
    split <;> rfl
  · split <;> rfl
  · split <;> rfl

theorem emits (h : act.Untraced act world) : act.Emits [] world :=
  ⟨h.toTransparent, fun _ => h.spans_eq.trans (List.append_nil _).symm⟩

end Untraced

namespace Emits

variable {spans : List Tracing.Span}

theorem map (f : α → β) (h : act.Emits spans world) : (f <$> act).Emits spans world := by
  refine ⟨⟨?_, ?_⟩, fun hrecords => ?_⟩
  · rw [perform_map, perform_map, h.perform_eq]
  · rw [perform_map]
    exact h.observers_eq
  · rw [perform_map]
    exact h.spans_eq hrecords

theorem bind_untraced (h : act.Emits spans world)
    (hnext : ∀ a world, (next a).Untraced (next a) world) :
    (act >>= next).Emits spans world := by
  refine ⟨h.toTransparent.bind fun a world => (hnext a world).toTransparent, fun hrecords => ?_⟩
  rcases hperform : act.perform world with ⟨result, world'⟩
  have hspans := h.spans_eq hrecords
  rw [hperform] at hspans
  cases result with
  | error failure =>
    rw [perform_bind_of_error hperform]
    exact hspans
  | ok a =>
    rw [perform_bind_of_ok hperform, (hnext a world').spans_eq]
    exact hspans

theorem untraced_bind (h : act.Untraced act world)
    (hok : ∀ a world', act.perform world = (.ok a, world') → (next a).Emits spans world')
    (herror : ∀ failure world', act.perform world = (.error failure, world') → spans = []) :
    (act >>= next).Emits spans world := by
  obtain ⟨⟨hact, hobservers⟩, hspans⟩ := h
  rcases hperform : act.perform world with ⟨result, world'⟩
  rw [hperform] at hact hobservers hspans
  cases result with
  | error failure =>
    refine ⟨⟨?_, ?_⟩, fun _ => ?_⟩
    · rw [perform_bind_of_error hact, perform_bind_of_error hperform]
    · rw [perform_bind_of_error hperform]
      exact hobservers
    · rw [perform_bind_of_error hperform, herror failure world' hperform, List.append_nil]
      exact hspans
  | ok a =>
    have hnext := hok a world' hperform
    refine ⟨⟨?_, ?_⟩, fun hrecords => ?_⟩
    · rw [perform_bind_of_ok hact, perform_bind_of_ok hperform]
      exact hnext.perform_eq
    · rw [perform_bind_of_ok hperform, hnext.observers_eq]
      exact hobservers
    · have hrecords' : world'.records = true :=
        (World.records_of_observers hobservers).trans hrecords
      rw [perform_bind_of_ok hperform, hnext.spans_eq hrecords']
      exact congrArg (· ++ spans) hspans

end Emits

end Action

open Depot.Action

section Traced

variable {α : Type} {operation : Tracing.Operation} {backend : String} {name : Option String}
  {summarize : α → Except Failure (List Tracing.Attribute)} {act : Action α} {world : World}

theorem perform_traced (h : world.records = true) :
    (traced operation backend name summarize act).perform world
      =
    ((act.perform world).1,
      { (act.perform world).2 with
        spans := (act.perform world).2.spans ++ [.of operation
          (Tracing.openingAttributes world.digest backend name)
          (Tracing.heard ((act.perform world).1.bind summarize))] }) := by
  unfold traced
  rw [perform_get_bind, if_pos h, perform_bind_of_ok (perform_attempt act world),
    perform_bind_of_ok (perform_modify _ _)]
  rfl

theorem perform_traced_of_unrecorded (h : world.records = false) :
    (traced operation backend name summarize act).perform world = act.perform world := by
  unfold traced
  rw [perform_get_bind, h, if_neg Bool.false_ne_true]

theorem perform_traced_fst :
    ((traced operation backend name summarize act).perform world).1 = (act.perform world).1 := by
  cases hrecords : world.records with
  | true => rw [perform_traced hrecords]
  | false => rw [perform_traced_of_unrecorded hrecords]

theorem perform_traced_calls :
    ((traced operation backend name summarize act).perform world).2.calls
      =
    (act.perform world).2.calls := by
  cases hrecords : world.records with
  | true => rw [perform_traced hrecords]
  | false => rw [perform_traced_of_unrecorded hrecords]

theorem traced_transparent (h : act.Transparent act world) :
    (traced operation backend name summarize act).Transparent
      (traced operation backend name summarize act) world := by
  have hsilent : (traced operation backend name summarize act).perform world.silent
      = act.perform world.silent := perform_traced_of_unrecorded world.records_silent
  cases hrecords : world.records with
  | true =>
    refine ⟨?_, ?_⟩
    · rw [hsilent, h.perform_eq, perform_traced hrecords]
      rfl
    · rw [perform_traced hrecords]
      exact h.observers_eq
  | false =>
    refine ⟨?_, ?_⟩
    · rw [hsilent, perform_traced_of_unrecorded hrecords]
      exact h.perform_eq
    · rw [perform_traced_of_unrecorded hrecords]
      exact h.observers_eq

theorem traced_emits {spans : List Tracing.Span} (h : act.Emits spans world) :
    (traced operation backend name summarize act).Emits
      (spans ++ [.of operation (Tracing.openingAttributes world.digest backend name)
        (Tracing.heard ((act.perform world).1.bind summarize))]) world := by
  refine ⟨traced_transparent h.toTransparent, fun hrecords => ?_⟩
  rw [perform_traced hrecords, h.spans_eq hrecords, List.append_assoc]

end Traced

theorem conditionalWrite_untraced {perform : Action Unit} {world : World}
    (h : ∀ world, perform.Untraced perform world) (overwrite : Bool)
    (collides : Failure → Except Failure Bool) (key : String) :
    (conditionalWrite perform overwrite collides key).Untraced
      (conditionalWrite perform overwrite collides key) world := by
  unfold conditionalWrite
  cases overwrite with
  | true => exact (h world).bind fun _ world => .pure true world
  | false =>
    rw [if_neg Bool.false_ne_true]
    refine (h world).attempt.bind fun result world => ?_
    cases result with
    | ok done => exact .pure true world
    | error failure =>
      dsimp only
      cases failure.interrupts with
      | true => exact .throw failure world
      | false =>
        rw [if_neg Bool.false_ne_true]
        refine (Untraced.ofResult _ world).bind fun collision world => ?_
        cases collision with
        | true => exact (Untraced.note _ _ _ world).bind fun _ world => .pure false world
        | false => exact .throw failure world

end Depot
