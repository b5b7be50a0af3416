import Depot.Proofs.Store.Pushes
import Depot.Proofs.Tracing.Operations

/-!
This module contains the calls of traced operations and the spans they leave: one for each call,
after those of the calls that it makes itself.
-/

namespace Depot

open Depot.Action

namespace Tracing

variable {digest digest' : String → String} {backend backend' : Backend}
  {name name' : Option String} {more more' : List Attribute} {operation operation' : Operation}

def Lacks (key : String) (attributes : List Attribute) : Prop :=
  ∀ a ∈ attributes, a.1 ≠ key

theorem Lacks.append {key : String} (h : Lacks key more) (h' : Lacks key more') :
    Lacks key (more ++ more') := by
  intro a ha
  rcases List.mem_append.1 ha with hmore | hmore'
  · exact h a hmore
  · exact h' a hmore'

theorem Lacks.ne_cons {key : String} (h : Lacks key more) (value : AttributeValue) :
    more ≠ (key, value) :: more' := by
  rintro rfl
  exact h _ List.mem_cons_self rfl

def hashKey : String := "objstore.object_name_sha256"

def errorKey : String := "error.type"

theorem lacks_failureAttributes (failure : Failure) : Lacks hashKey (failureAttributes failure) := by
  unfold Lacks failureAttributes
  simp [hashKey]

theorem backend_eq_of_name_eq (h : backend.name = backend'.name) : backend = backend' := by
  cases backend <;> cases backend' <;> first | rfl | exact absurd h (by decide)

theorem openingAttributes_append_inj (h : Lacks hashKey more) (h' : Lacks hashKey more') :
    openingAttributes digest backend.name name ++ more
        = openingAttributes digest' backend'.name name' ++ more'
      ↔ backend = backend' ∧ name.map digest = name'.map digest' ∧ more = more' := by
  have hbackend : backend.name = backend'.name ↔ backend = backend' :=
    ⟨backend_eq_of_name_eq, congrArg Backend.name⟩
  unfold openingAttributes
  cases name with
  | none =>
    cases name' with
    | none => simp [hbackend]
    | some name' =>
      refine ⟨fun heq => ?_, fun hsame => by cases hsame.2.1⟩
      exact absurd (List.cons.inj heq).2 (h.ne_cons _)
  | some name =>
    cases name' with
    | none =>
      refine ⟨fun heq => ?_, fun hsame => by cases hsame.2.1⟩
      exact absurd (List.cons.inj heq).2.symm (h'.ne_cons _)
    | some name' => simp [hbackend]

/-- Whether two operations end alike but for texts: with one summary, or failures of one class. -/
def SameSummary : Except Failure (List Attribute) → Except Failure (List Attribute) → Prop
  | .ok summary, .ok summary' => summary = summary'
  | .error failure, .error failure' => failure.reason.kindName = failure'.reason.kindName
  | .ok _, .error _ | .error _, .ok _ => False

instance (outcome outcome' : Except Failure (List Attribute)) :
    Decidable (SameSummary outcome outcome') :=
  match outcome, outcome' with
  | .ok summary, .ok summary' => inferInstanceAs (Decidable (summary = summary'))
  | .error failure, .error failure' =>
    inferInstanceAs (Decidable (failure.reason.kindName = failure'.reason.kindName))
  | .ok _, .error _ | .error _, .ok _ => inferInstanceAs (Decidable False)

theorem cases_of_heard_ok {outcome : Except Failure (List Attribute)} {summary : List Attribute}
    (h : heard outcome = .ok summary) : summary = [] ∨ outcome = .ok summary := by
  cases outcome with
  | ok summary' => exact .inr h
  | error failure =>
    cases hinterrupts : failure.interrupts with
    | true =>
      rw [heard, hinterrupts, if_pos rfl, Except.ok.injEq] at h
      exact .inl h.symm
    | false =>
      rw [heard, hinterrupts, if_neg Bool.false_ne_true] at h
      cases h

def message? : Except Failure (List Attribute) → Option String
  | .ok _ => none
  | .error failure => some failure.reason.render

theorem Span.ofReturn_eq_iff {opening opening' summary summary' : List Attribute} :
    Span.ofReturn operation opening summary = Span.ofReturn operation' opening' summary'
      ↔ operation = operation' ∧ opening ++ summary = opening' ++ summary' := by
  simp [Span.ofReturn]

theorem Span.ofFailure_eq_iff {opening opening' : List Attribute} {failure failure' : Failure} :
    Span.ofFailure operation opening failure = Span.ofFailure operation' opening' failure'
      ↔ operation = operation'
        ∧ opening ++ failureAttributes failure = opening' ++ failureAttributes failure'
        ∧ failure.reason.kindName = failure'.reason.kindName
        ∧ failure.reason.render = failure'.reason.render := by
  unfold Span.ofFailure
  simp only [Span.mk.injEq, List.cons.injEq, Event.mk.injEq, and_true]
  constructor
  · rintro ⟨hoperation, hattributes, -, hkind, hmessage⟩
    exact ⟨hoperation, hattributes, hkind, hmessage⟩
  · rintro ⟨hoperation, hattributes, hkind, hmessage⟩
    exact ⟨hoperation, hattributes, by rw [hkind, hmessage], hkind, hmessage⟩

theorem failureAttributes_eq_iff {failure failure' : Failure} :
    failureAttributes failure = failureAttributes failure'
      ↔ failure.reason.kindName = failure'.reason.kindName := by
  simp [failureAttributes]

theorem Span.of_eq_iff {outcome outcome' : Except Failure (List Attribute)}
    (h : ∀ summary, outcome = .ok summary → Lacks hashKey summary)
    (h' : ∀ summary, outcome' = .ok summary → Lacks hashKey summary) :
    Span.of operation (openingAttributes digest backend.name name) outcome
        = Span.of operation' (openingAttributes digest' backend'.name name') outcome'
      ↔ operation = operation' ∧ backend = backend' ∧ name.map digest = name'.map digest'
        ∧ SameSummary outcome outcome' ∧ message? outcome = message? outcome' := by
  cases outcome with
  | ok summary =>
    cases outcome' with
    | ok summary' =>
      simp only [Span.of, Span.ofReturn_eq_iff,
        openingAttributes_append_inj (h _ rfl) (h' _ rfl), SameSummary, message?, and_true]
    | error failure' => simp [Span.of, Span.ofReturn, Span.ofFailure, SameSummary]
  | error failure =>
    cases outcome' with
    | ok summary' => simp [Span.of, Span.ofReturn, Span.ofFailure, SameSummary]
    | error failure' =>
      have hlacks := lacks_failureAttributes failure
      have hlacks' := lacks_failureAttributes failure'
      simp only [Span.of, Span.ofFailure_eq_iff, openingAttributes_append_inj hlacks hlacks',
        failureAttributes_eq_iff, SameSummary, message?, Option.some_inj, and_assoc,
        and_self_left]

end Tracing

namespace Store

/-- What a traced operation returns. A walk also tells by its end whether it has failed. -/
inductive Reply where
  | written (b : Bool)
  | opened (reader : Reader)
  | deleted
  | found (b : Bool)
  | listed (names : List String)
  | walked (walk : Walk)
  | pushed

def Reply.summary : Reply → Except Failure (List Tracing.Attribute)
  | written b => .ok [("objstore.object_written", .flag b)]
  | found b => .ok [("objstore.object_exists", .flag b)]
  | listed names => .ok [("objstore.object_count", .count names.length)]
  | walked walk => walk.result.map fun count => [("objstore.walk_visit_count", .count count)]
  | opened _ | deleted | pushed => .ok []

theorem Reply.lacks_of_summary {reply : Reply} {summary : List Tracing.Attribute}
    (h : reply.summary = .ok summary) :
    Tracing.Lacks Tracing.hashKey summary ∧ Tracing.Lacks Tracing.errorKey summary := by
  unfold Tracing.Lacks Tracing.hashKey Tracing.errorKey
  cases reply with
  | walked walk =>
    dsimp only [Reply.summary] at h
    cases hresult : walk.result with
    | error failure =>
      rw [hresult] at h
      cases h
    | ok count =>
      rw [hresult] at h
      cases h
      simp
  | written b => cases h; simp
  | opened reader => cases h; simp
  | deleted => cases h; simp
  | found b => cases h; simp
  | listed names => cases h; simp
  | pushed => cases h; simp

inductive Call where
  | write (name : String) (source : Source) (overwrite : Option Bool)
  | openReader (name : String)
  | delete (name : String)
  | contains (name : String)
  /-- A listing. Spans tell of what it is under if that is given by position. -/
  | list (under : String) (limit : Int) (positional : Bool)
  | walkFrom (under start : String) (visitor : Visitor)
  /-- The writing of a local file. Spans tell of its path if that is given as a text. -/
  | push (path name : String) (textual : Bool)

namespace Call

def operation : Call → Tracing.Operation
  | write _ _ _ => .writeObject
  | openReader _ => .openObject
  | delete _ => .deleteObject
  | contains _ => .askExistence
  | list _ _ _ => .listNames
  | walkFrom _ _ _ => .walkNames
  | push _ _ _ => .pushFile

/-- The text whose hash the span of a call tells. -/
def told : Call → Option String
  | write name _ _ | openReader name | delete name | contains name => some name
  | list under _ positional => if positional then some under else none
  | walkFrom under _ _ => some under
  | push path _ textual => if textual then some path else none

def perform (store : Store) : Call → Action Reply
  | write name source overwrite => .written <$> store.write name source overwrite
  | openReader name => .opened <$> store.openReader name
  | delete name => (fun _ => .deleted) <$> store.delete name
  | contains name => .found <$> store.contains name
  | list under limit positional =>
    .listed <$> store.list under limit (if positional then some under else none)
  | walkFrom under start visitor => .walked <$> store.walkFrom under start visitor
  | push path name textual =>
    (fun _ => .pushed) <$> store.push path name (if textual then some path else none)

variable (store : Store) (call : Call) (world : World)

def inner : List Call :=
  match call with
  | list under limit _ => if limit ≤ 0 then [] else [walkFrom under "" (Walk.collector limit)]
  | push path name _ =>
    match ((readLocal (.parse path)).perform world).1 with
    | .ok bytes => [write name (Source.ofBytes bytes) none]
    | .error _ => []
  | write _ _ _ | openReader _ | delete _ | contains _ | walkFrom _ _ _ => []

theorem inner_list (under : String) (limit : Int) (positional : Bool) :
    (list under limit positional).inner world
      =
    if limit ≤ 0 then [] else [walkFrom under "" (Walk.collector limit)] := rfl

theorem inner_push_of_ok {path : String} {bytes : ByteArray} (name : String) (textual : Bool)
    {world world' : World} (h : (readLocal (.parse path)).perform world = (.ok bytes, world')) :
    (push path name textual).inner world = [write name (Source.ofBytes bytes) none] := by
  simp only [inner, h]

theorem inner_push_of_error {path : String} {failure : Failure} (name : String) (textual : Bool)
    {world world' : World}
    (h : (readLocal (.parse path)).perform world = (.error failure, world')) :
    (push path name textual).inner world = [] := by
  simp only [inner, h]

def ending : Except Failure (List Tracing.Attribute) :=
  ((call.perform store).perform world).1.bind Reply.summary

def outcome : Except Failure (List Tracing.Attribute) :=
  Tracing.heard (call.ending store world)

def span : Tracing.Span :=
  .of call.operation (Tracing.openingAttributes world.digest store.backend.name call.told)
    (call.outcome store world)

end Call

section Emits

variable (store : Store) (call : Call) {world : World} {α : Type} {act : Action α} (f : α → Reply)
  {summarize : α → Except Failure (List Tracing.Attribute)} {spans : List Tracing.Span}

variable (hperform : (call.perform store).perform world
    = (f <$> traced call.operation store.backend.name call.told summarize act).perform world)
  (hsummary : ∀ a, (f a).summary = summarize a)

include hperform hsummary

theorem ending_of_traced : call.ending store world = (act.perform world).1.bind summarize := by
  unfold Call.ending
  rw [hperform, perform_map, perform_traced_fst]
  cases (act.perform world).1 with
  | error failure => rfl
  | ok a => exact hsummary a

theorem emits_of_traced (h : act.Emits spans world) :
    (traced call.operation store.backend.name call.told summarize act).Emits
      (spans ++ [call.span store world]) world := by
  have hspan : call.span store world = .of call.operation
      (Tracing.openingAttributes world.digest store.backend.name call.told)
      (Tracing.heard ((act.perform world).1.bind summarize)) :=
    congrArg (fun ending => Tracing.Span.of _ _ (Tracing.heard ending))
      (ending_of_traced store call f hperform hsummary)
  rw [hspan]
  exact traced_emits h

theorem emits_of_untraced (h : act.Untraced act world) :
    (traced call.operation store.backend.name call.told summarize act).Emits
      [call.span store world] world :=
  emits_of_traced store call f hperform hsummary h.emits

end Emits

section Operations

variable (store : Store) (name : String) (world : World)

theorem write_emits (source : Source) (overwrite : Option Bool) :
    (store.write name source overwrite).Emits
      [(Call.write name source overwrite).span store world] world := by
  refine emits_of_untraced store (.write name source overwrite) .written rfl (fun _ => rfl) ?_
  cases store.backend with
  | files => exact Files.write_untraced store name source _ world
  | gcs => exact Gcs.write_untraced store name source _ world
  | s3 => exact S3.write_untraced store name source _ world

theorem delete_emits :
    (store.delete name).Emits [(Call.delete name).span store world] world := by
  refine emits_of_untraced store (.delete name) (fun _ => .deleted) rfl (fun _ => rfl) ?_
  cases store.backend with
  | files => exact Files.delete_untraced store name world
  | gcs => exact Gcs.delete_untraced store name world
  | s3 => exact S3.delete_untraced store name world

theorem contains_emits :
    (store.contains name).Emits [(Call.contains name).span store world] world := by
  refine emits_of_untraced store (.contains name) .found rfl (fun _ => rfl) ?_
  cases store.backend with
  | files => exact Files.contains_untraced store name world
  | gcs => exact Gcs.contains_untraced store name world
  | s3 => exact S3.contains_untraced store name world

theorem walkFrom_emits (under start : String) (visitor : Visitor) :
    (store.walkFrom under start visitor).Emits
      [(Call.walkFrom under start visitor).span store world] world := by
  have hsame : store.walkOf world.silent under start visitor
      = store.walkOf world under start visitor := rfl
  refine emits_of_untraced store (.walkFrom under start visitor) .walked rfl (fun _ => rfl) ?_
  refine Untraced.get_bind ?_
  rw [hsame]
  refine Untraced.bind (.modify ?_ ?_ ?_) fun _ world => ?_
  · rfl
  · rfl
  · rfl
  · split
    · exact (Untraced.note _ _ _ world).bind fun _ world => .pure _ world
    · exact .pure _ world

theorem perform_openReader_call :
    ((Call.openReader name).perform store).perform world
      =
    ((fun reader => Reply.opened (handed name world reader)) <$> store.tracedBody name).perform
      world := by
  have hcall : (Call.openReader name).perform store = .opened <$> store.openReader name := rfl
  rw [hcall, perform_map, perform_map, perform_openReader]
  cases ((store.tracedBody name).perform world).1 with
  | error failure => simp only [Except.map]
  | ok reader => simp only [Except.map]

theorem tracedBody_emits :
    (store.tracedBody name).Emits [(Call.openReader name).span store world] world := by
  have htraced : store.tracedBody name = traced (Call.openReader name).operation store.backend.name
      (Call.openReader name).told (fun _ => .ok []) (store.openBody name) := rfl
  have hperform := perform_openReader_call store name world
  rw [htraced] at hperform ⊢
  exact emits_of_untraced store (.openReader name) _ hperform (fun _ => rfl)
    (openBody_untraced store name world)

theorem list_emits (under : String) (limit : Int) (positional : Bool) :
    (store.list under limit (if positional then some under else none)).Emits
      (((Call.list under limit positional).inner world).map (·.span store world)
        ++ [(Call.list under limit positional).span store world]) world := by
  refine emits_of_traced store (.list under limit positional) .listed rfl (fun _ => rfl) ?_
  rw [Call.inner_list]
  unfold collectFrom Walk.first?
  by_cases hlimit : limit ≤ 0
  · rw [if_pos hlimit, if_pos hlimit]
    exact (Untraced.pure _ world).emits
  · rw [if_neg hlimit, if_neg hlimit]
    exact (walkFrom_emits store world under "" _).bind_untraced fun walk world =>
      namesOf_untraced walk world

theorem push_emits (path : String) (textual : Bool) :
    (store.push path name (if textual then some path else none)).Emits
      (((Call.push path name textual).inner world).map (·.span store world)
        ++ [(Call.push path name textual).span store world]) world := by
  refine emits_of_traced store (.push path name textual) (fun _ => .pushed) rfl (fun _ => rfl) ?_
  refine Emits.untraced_bind (readLocal_untraced _ world) ?_ ?_
  · intro bytes world' hread
    obtain rfl : world' = world := perform_readLocal hread
    rw [Call.inner_push_of_ok name textual hread]
    refine (write_emits store name world' _ none).bind_untraced fun _ world => ?_
    exact (Files.change_untraced _ _ world).bind fun _ world => .note _ _ _ world
  · intro failure world' hread
    rw [Call.inner_push_of_error name textual hread]
    rfl

end Operations

namespace Call

open Tracing

variable {store store' : Store} {call call' : Call} {world world' : World}

theorem perform_emits (store : Store) (h : ∀ name, call ≠ .openReader name) (world : World) :
    (call.perform store).Emits ((call.inner world ++ [call]).map (·.span store world)) world := by
  rw [List.map_append]
  cases call with
  | write name source overwrite => exact (write_emits store name world source overwrite).map _
  | openReader name => exact absurd rfl (h name)
  | delete name => exact (delete_emits store name world).map _
  | contains name => exact (contains_emits store name world).map _
  | list under limit positional => exact (list_emits store world under limit positional).map _
  | walkFrom under start visitor => exact (walkFrom_emits store world under start visitor).map _
  | push path name textual => exact (push_emits store name world path textual).map _

theorem spans_perform (store : Store) (call : Call) (h : world.records = true) :
    ((call.perform store).perform world).2.spans
      =
    world.spans ++ (call.inner world ++ [call]).map (·.span store world) := by
  by_cases hopen : ∃ name, call = .openReader name
  · obtain ⟨name, rfl⟩ := hopen
    have hperform := perform_openReader_call store name world
    rw [hperform, perform_map]
    dsimp only
    rw [(tracedBody_emits store name world).spans_eq h]
    rfl
  · exact (perform_emits store (fun name hname => hopen ⟨name, hname⟩) world).spans_eq h

theorem lacks_of_outcome {summary : List Attribute} (h : call.outcome store world = .ok summary) :
    Lacks hashKey summary ∧ Lacks errorKey summary := by
  rcases cases_of_heard_ok h with rfl | hending
  · exact ⟨fun _ ha => absurd ha List.not_mem_nil, fun _ ha => absurd ha List.not_mem_nil⟩
  · unfold ending at hending
    cases hresult : ((call.perform store).perform world).1 with
    | error failure =>
      rw [hresult] at hending
      cases hending
    | ok reply =>
      rw [hresult] at hending
      exact Reply.lacks_of_summary hending

theorem span_eq_iff :
    call.span store world = call'.span store' world'
      ↔ call.operation = call'.operation ∧ store.backend = store'.backend
        ∧ call.told.map world.digest = call'.told.map world'.digest
        ∧ SameSummary (call.outcome store world) (call'.outcome store' world')
        ∧ message? (call.outcome store world) = message? (call'.outcome store' world') :=
  Span.of_eq_iff (fun _ h => (lacks_of_outcome h).1) (fun _ h => (lacks_of_outcome h).1)

/--
The spans that calls leave, and what they tell: the operation, the backend, the hash of a text, how
the call has ended, and the text of the failure if it has failed. They tell nothing else.
-/
theorem spans_tell (store store' : Store) (call call' : Call) (h : world.records = true)
    (h' : world'.records = true) :
    ((call.perform store).perform world).2.spans
        = world.spans ++ (call.inner world ++ [call]).map (·.span store world)
      ∧ ((call'.perform store').perform world').2.spans
        = world'.spans ++ (call'.inner world' ++ [call']).map (·.span store' world')
      ∧ (call.span store world = call'.span store' world'
        ↔ call.operation = call'.operation ∧ store.backend = store'.backend
          ∧ call.told.map world.digest = call'.told.map world'.digest
          ∧ SameSummary (call.outcome store world) (call'.outcome store' world')
          ∧ message? (call.outcome store world) = message? (call'.outcome store' world')) :=
  ⟨spans_perform store call h, spans_perform store' call' h', span_eq_iff⟩

section Sample

def watched (digest : String → String) : World where
  tree := { nodes := (Table.empty.insert ["y"] (.file .empty)).insert ["x"] (.file .empty) }
  environment := [("OBJSTORE_OTEL_ENABLED", "true")]
  provider := some { resource := [], capture := true }
  digest := digest

def outpost : Store where
  backend := .gcs
  location := { scheme := "gs", host := "b", path := "" }

theorem spans_tell_watched :
    (watched id).records = true
      ∧ (((delete "a").perform outpost).perform (watched id)).2.spans
        = [] ++ ((delete "a").inner (watched id) ++ [delete "a"]).map
          (·.span outpost (watched id)) :=
  ⟨by decide, (spans_tell outpost outpost (delete "a") (delete "a") (by decide)
    (show (watched id).records = true by decide)).1⟩

theorem sound_watched (digest : String → String) : (watched digest).tree.Sound := by
  have hnode : ∀ target, Depot.Files.Node.file .empty ≠ .link target := by simp
  exact (Files.sound_bare.insert rfl hnode (.inr rfl)).insert rfl hnode (.inr rfl)

theorem push_outcome {path : String} (hlocal : LocalFile (watched id) path .empty)
    (hroot : (watched id).tree.startOf (Depot.Files.Pathname.parse path) = []) :
    (push path "n" true).outcome outpost (watched id) = .ok [] := by
  have hmet : ∀ call, (watched id).met call = none := World.met_of_fault_none rfl
  have hupload : Gcs.Sound outpost (outpost.key "n") (.ofBytes .empty) (!false) (watched id)
      .empty := ⟨hmet _, Source.content_ofBytes .empty, hmet _⟩
  have hwrite : (outpost.write "n" (.ofBytes .empty)).Yields (watched id) (.ok true) _ :=
    write_yields (Gcs.write_yields_of_new hupload rfl)
  have hunlink := Depot.Files.Tree.unlink_of_stat_file (sound_watched id) hroot hlocal.stat_eq
  have hpush : ((push path "n" true).perform outpost).Yields (watched id) (.ok .pushed) _ :=
    (push_yields_of_unlink hlocal hwrite hunlink).map _
  unfold outcome ending
  rw [hpush.fst_eq]
  rfl

/--
Spans tell apart two deletions of names of one hash that fail alike, by what their failures say, and
two files that are pushed under one name, by their paths.
-/
theorem spans_tell_apart :
    ((delete "a").told.map (fun _ => "") = (delete "b").told.map (fun _ => "")
      ∧ SameSummary ((delete "a").outcome outpost (watched fun _ => ""))
        ((delete "b").outcome outpost (watched fun _ => ""))
      ∧ (delete "a").span outpost (watched fun _ => "")
        ≠ (delete "b").span outpost (watched fun _ => ""))
    ∧ (push "/x" "n" true).outcome outpost (watched id) = .ok []
    ∧ (push "/y" "n" true).outcome outpost (watched id) = .ok []
    ∧ (push "/x" "n" true).span outpost (watched id)
      ≠ (push "/y" "n" true).span outpost (watched id) := by
  have hx : LocalFile (watched id) "/x" .empty := localFile_x (sound_watched id) rfl
  have hy : LocalFile (watched id) "/y" .empty :=
    localFile_of_get? (sound_watched id) (by decide) (by decide) (by decide)
      ⟨by decide, by decide⟩ rfl
  refine ⟨by decide, push_outcome hx rfl, push_outcome hy rfl, fun hspan => ?_⟩
  exact absurd (span_eq_iff.1 hspan).2.2.1 (by decide)

end Sample

end Call

end Store

end Depot
