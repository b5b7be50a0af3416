import Depot.Policy

/-!
This module contains the theory of actions: what performing one gives, in terms of its parts. The
records that actions leave decide nothing, so worlds are compared without them.
-/

namespace Depot

structure Records where
  journal : List LogLine
  spans : List Tracing.Span
  calls : List Cloud.Call
  streamClosed : Option Bool
  clients : List Cloud.ClientRequest

namespace World

def recordsOf (world : World) : Records :=
  ⟨world.journal, world.spans, world.calls, world.streamClosed, world.clients⟩

def withRecords (world : World) (records : Records) : World :=
  { world with
    journal := records.journal
    spans := records.spans
    calls := records.calls
    streamClosed := records.streamClosed
    clients := records.clients }

def withTree (world : World) (tree : Files.Tree) : World :=
  { world with tree }

def withBucket (world : World) (bucket : Cloud.Bucket) : World :=
  { world with bucket }

def noting (world : World) (lines : List LogLine) : World :=
  { world with journal := world.journal ++ lines }

theorem noting_nil (world : World) : world.noting [] = world := by
  unfold noting
  rw [List.append_nil]

@[simp]
theorem withBucket_bucket (world : World) (bucket : Cloud.Bucket) :
    (world.withBucket bucket).bucket = bucket := rfl

@[simp]
theorem withTree_tree (world : World) (tree : Files.Tree) : (world.withTree tree).tree = tree := rfl

@[simp]
theorem withRecords_tree (world : World) (records : Records) :
    (world.withRecords records).tree = world.tree := rfl

@[simp]
theorem withRecords_bucket (world : World) (records : Records) :
    (world.withRecords records).bucket = world.bucket := rfl

@[simp]
theorem withRecords_fault (world : World) (records : Records) :
    (world.withRecords records).fault = world.fault := rfl

end World

namespace Action

variable {α β : Type} {act : Action α} {next : α → Action β} {world world₁ world₂ : World}

@[simp]
theorem perform_get (world : World) : (get : Action World).perform world = (.ok world, world) := rfl

@[simp]
theorem perform_modify (f : World → World) (world : World) :
    (modify f : Action PUnit).perform world = (.ok (), f world) := rfl

@[simp]
theorem perform_attempt (act : Action α) (world : World) :
    act.attempt.perform world = (.ok (act.perform world).1, (act.perform world).2) := rfl

theorem perform_bind_of_ok {a : α} (h : act.perform world = (.ok a, world₁)) :
    (act >>= next).perform world = (next a).perform world₁ := by
  have hrun : act.run.run world = (.ok a, world₁) := h
  unfold perform
  rw [ExceptT.run_bind, StateT.run_bind, hrun]
  rfl

theorem perform_bind_of_error {failure : Failure}
    (h : act.perform world = (.error failure, world₁)) :
    (act >>= next).perform world = (.error failure, world₁) := by
  have hrun : act.run.run world = (.error failure, world₁) := h
  unfold perform
  rw [ExceptT.run_bind, StateT.run_bind, hrun]
  rfl

theorem exists_of_bind_ok {b : β} (h : (act >>= next).perform world = (.ok b, world₂)) :
    ∃ a world₁, act.perform world = (.ok a, world₁)
      ∧ (next a).perform world₁ = (.ok b, world₂) := by
  rcases hact : act.perform world with ⟨result, world₁⟩
  cases result with
  | error failure =>
    rw [perform_bind_of_error hact] at h
    cases h
  | ok a =>
    rw [perform_bind_of_ok hact] at h
    exact ⟨a, world₁, rfl, h⟩

theorem perform_map (f : α → β) (act : Action α) (world : World) :
    (f <$> act).perform world = ((act.perform world).1.map f, (act.perform world).2) := by
  rw [map_eq_pure_bind]
  rcases hperform : act.perform world with ⟨result, world'⟩
  cases result with
  | error failure => exact perform_bind_of_error hperform
  | ok a => exact perform_bind_of_ok hperform

@[simp]
theorem perform_get_bind (next : World → Action β) (world : World) :
    (get >>= next).perform world = (next world).perform world :=
  perform_bind_of_ok (perform_get world)

/--
Performing an action gives this result and this world, but for the records that there are before and
after.
-/
def Yields (act : Action α) (world : World) (result : Except Failure α) (world' : World) : Prop :=
  ∀ records, ∃ records',
    act.perform (world.withRecords records) = (result, world'.withRecords records')

theorem Yields.perform_eq {result : Except Failure α} (h : act.Yields world result world₁) :
    ∃ records, act.perform world = (result, world₁.withRecords records) :=
  h world.recordsOf

theorem Yields.fst_eq {result : Except Failure α} (h : act.Yields world result world₁) :
    (act.perform world).1 = result := by
  obtain ⟨records, hperform⟩ := h.perform_eq
  rw [hperform]

theorem Yields.ofResult (result : Except Failure α) (world : World) :
    (Action.ofResult result).Yields world result world :=
  fun records => ⟨records, rfl⟩

theorem Yields.pure (a : α) (world : World) : (pure a : Action α).Yields world (.ok a) world :=
  fun records => ⟨records, rfl⟩

theorem Yields.throw (failure : Failure) (world : World) :
    (throw failure : Action α).Yields world (.error failure) world :=
  fun records => ⟨records, rfl⟩

theorem Yields.modify {f : World → World}
    (h : ∀ records, ∃ records', f (world.withRecords records) = world₁.withRecords records') :
    (modify f : Action PUnit).Yields world (.ok ()) world₁ := by
  intro records
  obtain ⟨records', hf⟩ := h records
  refine ⟨records', ?_⟩
  rw [perform_modify, hf]

theorem Yields.set {world' : World} (h : ∃ records, world' = world₁.withRecords records) :
    (set world' : Action PUnit).Yields world (.ok ()) world₁ := by
  obtain ⟨records', rfl⟩ := h
  exact fun records => ⟨records', rfl⟩

theorem Yields.bind {a : α} {result : Except Failure β} (h : act.Yields world (.ok a) world₁)
    (hnext : (next a).Yields world₁ result world₂) : (act >>= next).Yields world result world₂ := by
  intro records
  obtain ⟨records', hact⟩ := h records
  obtain ⟨records'', hthen⟩ := hnext records'
  refine ⟨records'', ?_⟩
  rw [perform_bind_of_ok hact, hthen]

theorem Yields.bind_error {failure : Failure} (h : act.Yields world (.error failure) world₁) :
    (act >>= next).Yields world (.error failure) world₁ := by
  intro records
  obtain ⟨records', hact⟩ := h records
  exact ⟨records', perform_bind_of_error hact⟩

theorem Yields.map (f : α → β) {result : Except Failure α} (h : act.Yields world result world₁) :
    (f <$> act).Yields world (result.map f) world₁ := by
  intro records
  obtain ⟨records', hact⟩ := h records
  refine ⟨records', ?_⟩
  rw [perform_map, hact]

theorem Yields.get_bind {next : World → Action β} {result : Except Failure β}
    (h : ∀ records, (next (world.withRecords records)).Yields world result world₁) :
    (get >>= next).Yields world result world₁ := by
  intro records
  obtain ⟨records', hnext⟩ := h records records
  refine ⟨records', ?_⟩
  rw [perform_get_bind, hnext]

theorem Yields.attempt {result : Except Failure α} (h : act.Yields world result world₁) :
    act.attempt.Yields world (.ok result) world₁ := by
  intro records
  obtain ⟨records', hact⟩ := h records
  refine ⟨records', ?_⟩
  rw [perform_attempt, hact]

theorem Yields.andFinally {last : Action Unit} {result : Except Failure α}
    (h : act.Yields world result world₁) (hlast : last.Yields world₁ (.ok ()) world₂) :
    (act.andFinally last).Yields world result world₂ := by
  unfold Action.andFinally
  exact h.attempt.bind (hlast.bind (.ofResult result world₂))

theorem Yields.forIn {ι : Type} {items : List ι} {body : ι → PUnit → Action (ForInStep PUnit)}
    (h : ∀ item, (body item ⟨⟩).Yields world (.ok (.yield ⟨⟩)) world) :
    (forIn items PUnit.unit body : Action PUnit).Yields world (.ok ()) world := by
  induction items with
  | nil => exact .pure _ world
  | cons item items ih =>
    rw [List.forIn_cons]
    exact (h item).bind ih

section Ends

variable {fails : Failure → Prop} {returns : α → Prop} {returns' : β → Prop}

def Among (fails : Failure → Prop) (returns : α → Prop) : Except Failure α → Prop
  | .ok a => returns a
  | .error failure => fails failure

def Ends (act : Action α) (fails : Failure → Prop) (returns : α → Prop) : Prop :=
  ∀ world, Among fails returns (act.perform world).1

theorem Ends.failure (h : act.Ends fails returns) {world : World} {failure : Failure}
    (hfails : (act.perform world).1 = .error failure) : fails failure := by
  have hends := h world
  rw [hfails] at hends
  exact hends

theorem Ends.pure {a : α} (h : returns a) : (pure a : Action α).Ends fails returns :=
  fun _ => h

theorem Ends.throw {failure : Failure} (h : fails failure) :
    (throw failure : Action α).Ends fails returns :=
  fun _ => h

theorem Ends.get : (get : Action World).Ends fails fun _ => True :=
  fun _ => trivial

theorem Ends.set (world : World) : (set world : Action PUnit).Ends fails fun _ => True :=
  fun _ => trivial

theorem Ends.modify (f : World → World) : (modify f : Action PUnit).Ends fails fun _ => True :=
  fun _ => trivial

theorem Ends.bind (h : act.Ends fails returns)
    (hnext : ∀ a, returns a → (next a).Ends fails returns') :
    (act >>= next).Ends fails returns' := by
  intro world
  have hact := h world
  rcases hperform : act.perform world with ⟨result, world'⟩
  rw [hperform] at hact
  cases result with
  | ok a =>
    rw [perform_bind_of_ok hperform]
    exact hnext a hact world'
  | error failure =>
    rw [perform_bind_of_error hperform]
    exact hact

theorem Ends.attempt (h : act.Ends fails returns) :
    act.attempt.Ends fails (Among fails returns) := by
  intro world
  rw [perform_attempt]
  exact h world

theorem Ends.ofResult {result : Except Failure α} (h : Among fails returns result) :
    (Action.ofResult result).Ends fails returns := by
  intro world
  cases result with
  | ok a => exact h
  | error failure => exact h

theorem Ends.andFinally {last : Action Unit} (h : act.Ends fails returns)
    (hlast : last.Ends fails fun _ => True) : (act.andFinally last).Ends fails returns := by
  unfold Action.andFinally
  refine h.attempt.bind fun result hresult => hlast.bind fun _ _ => ?_
  exact .ofResult hresult

end Ends

end Action

open Depot.Action

theorem perform_note (level : Level) (topic : Topic) (message : String) (world : World) :
    ∃ kept, (note level topic message).perform world = (.ok (), world.noting kept) := by
  unfold note
  rw [perform_modify]
  by_cases hdebug : world.debug
  · exact ⟨[⟨level, topic, message⟩], by rw [if_pos hdebug]; rfl⟩
  · exact ⟨[], by rw [if_neg hdebug, World.noting_nil]⟩

theorem note_yields (level : Level) (topic : Topic) (message : String) (world : World) :
    (note level topic message).Yields world (.ok ()) world := by
  unfold note
  apply Yields.modify
  intro records
  by_cases hdebug : world.debug
  · exact ⟨{ records with journal := records.journal ++ [⟨level, topic, message⟩] }, if_pos hdebug⟩
  · exact ⟨records, if_neg hdebug⟩

theorem traced_yields {α : Type} {operation : Tracing.Operation} {backend : String}
    {name : Option String} {summarize : α → Except Failure (List Tracing.Attribute)}
    {act : Action α} {world world' : World} {result : Except Failure α}
    (h : act.Yields world result world') :
    (traced operation backend name summarize act).Yields world result world' := by
  unfold traced
  apply Yields.get_bind
  intro records
  by_cases hrecords : (world.withRecords records).records
  · rw [if_pos hrecords]
    refine h.attempt.bind (Yields.bind (a := ⟨⟩) ?_ (.ofResult result world'))
    apply Yields.modify
    intro records'
    exact ⟨{ records' with spans := _ }, rfl⟩
  · rw [if_neg hrecords]
    exact h

section Policy

variable {perform : Action Unit} {collides : Failure → Except Failure Bool} {key : String}
  {world world' : World} {failure : Failure}

theorem conditionalWrite_yields_of_ok {overwrite : Bool} (h : perform.Yields world (.ok ()) world') :
    (conditionalWrite perform overwrite collides key).Yields world (.ok true) world' := by
  unfold conditionalWrite
  cases overwrite with
  | true => exact h.bind (.pure true world')
  | false =>
    rw [if_neg (by simp)]
    exact h.attempt.bind (.pure true world')

def refused (collides : Failure → Except Failure Bool) (overwrite : Bool) (failure : Failure) :
    Except Failure Bool :=
  if overwrite || failure.interrupts then .error failure
  else
    match collides failure with
    | .ok true => .ok false
    | .ok false => .error failure
    | .error other => .error other

theorem refused_of_answer (collides : Failure → Bool) (failure : Failure) :
    refused (fun failure => .ok (collides failure)) false failure
      =
    if !failure.interrupts && collides failure then .ok false else .error failure := by
  unfold refused
  rw [Bool.false_or]
  cases failure.interrupts with
  | true => rfl
  | false =>
    dsimp only
    cases collides failure with
    | true => rfl
    | false => rfl

theorem conditionalWrite_yields_of_error {overwrite : Bool}
    (h : perform.Yields world (.error failure) world') :
    (conditionalWrite perform overwrite collides key).Yields world
      (refused collides overwrite failure) world' := by
  unfold conditionalWrite refused
  cases overwrite with
  | true => exact h.bind_error
  | false =>
    rw [if_neg (by simp), Bool.false_or]
    refine h.attempt.bind ?_
    dsimp only
    cases failure.interrupts with
    | true => exact .throw failure world'
    | false =>
      rw [if_neg (by simp), if_neg (by simp)]
      cases collides failure with
      | error other => exact (Yields.ofResult _ world').bind_error
      | ok collision =>
        refine (Yields.ofResult _ world').bind ?_
        cases collision with
        | true =>
          refine (note_yields _ _ _ world').bind ?_
          exact .pure false world'
        | false => exact .throw failure world'

theorem conditionalWrite_ends {overwrite : Bool} {fails : Failure → Prop}
    (collides : Failure → Bool) (key : String)
    (h : perform.Ends fails fun _ => True) :
    (conditionalWrite perform overwrite (fun failure => .ok (collides failure)) key).Ends fails
      fun _ => True := by
  unfold conditionalWrite
  cases overwrite with
  | true => exact h.bind fun _ _ => .pure trivial
  | false =>
    refine h.attempt.bind fun result hresult => ?_
    cases result with
    | ok done => exact .pure trivial
    | error failure =>
      have hcollides : (Action.ofResult (.ok (collides failure)) : Action Bool).Ends fails
          fun _ => True := .ofResult trivial
      dsimp only
      cases failure.interrupts with
      | true => exact .throw hresult
      | false =>
        rw [if_neg (by simp)]
        refine hcollides.bind fun collision _ => ?_
        cases collision with
        | true => exact (Ends.modify _).bind fun _ _ => .pure trivial
        | false => exact .throw hresult

end Policy

end Depot
