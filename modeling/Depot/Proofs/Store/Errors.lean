import Depot.Proofs.Store.Peers

/-!
This module contains what becomes of the errors of providers: which of them a store takes for an
answer, which it passes on as they are, and at which of them it stumbles over the response.
-/

namespace Depot

open Depot.Action

namespace Value

def isObject : Value → Bool
  | object _ => true
  | _ => false

def memberOf? (name : String) : Value → Option Value
  | object members => member? name members
  | _ => none

/-- What a value has under some names, one within the other; nothing if there is nothing. -/
def part : List String → Value → Value
  | [], v => v
  | name :: names, v => part names ((v.memberOf? name).getD .null)

/-- The first value on the way to a part that is given but has no members. -/
def snag : List String → Value → Option Value
  | [], _ => none
  | name :: names, v => if v.isGiven && !v.isObject then some v else snag names (part [name] v)

def told (v : Value) : String :=
  if v.isGiven then v.render else ""

end Value

namespace Cloud

def seek : List String → Value → Except Failure Value
  | [], v => .ok v
  | name :: names, v => member name v >>= seek names

theorem member_eq (name : String) (v : Value) :
    member name v
      =
    if v.isGiven && !v.isObject then .error (noMember v) else .ok (v.part [name]) := by
  unfold member
  cases v with
  | object members =>
    -- An object without members is not given, and has nothing under any name.
    cases members with
    | nil => rfl
    | cons member members => rfl
  | null => rfl
  | _ => split <;> simp_all [Value.isObject, Value.part, Value.memberOf?]

theorem seek_eq (names : List String) (v : Value) :
    seek names v
      =
    match v.snag names with
    | some w => .error (noMember w)
    | none => .ok (v.part names) := by
  -- The names are followed from the outermost one on.
  induction names generalizing v with
  | nil => rfl
  | cons name names ih =>
    unfold seek Value.snag
    rw [member_eq]
    split
    · rfl
    · exact ih (v.part [name])

section Response

def codePath : List String :=
  ["Error", "Code"]

def statusPath : List String :=
  ["ResponseMetadata", "HTTPStatusCode"]

variable (response : Value)

theorem snag_eq_none {name inner : String} {members : List (String × Value)}
    (h : ProviderError.partOf? name response = some members) : response.snag [name, inner] = none := by
  unfold ProviderError.partOf? at h
  cases response with
  | object outer =>
    dsimp only at h
    cases hfound : Value.member? name outer with
    | none => simp [Value.snag, Value.part, Value.memberOf?, Value.isObject, Value.isGiven, hfound]
    | some found =>
      rw [hfound] at h
      cases found with
      | object inside => simp [Value.snag, Value.part, Value.memberOf?, Value.isObject, hfound]
      | _ => cases h
  | _ => cases h

theorem errorCode_eq :
    errorCode response
      =
    match response.snag codePath with
    | some w => .error (noMember w)
    | none => .ok (response.part codePath).told := by
  have hseek : errorCode response = (seek codePath response).map Value.told := by
    unfold errorCode codePath
    dsimp only [seek, bind, Except.bind]
    cases member "Error" response with
    | error failure => rfl
    | ok error =>
      dsimp only
      cases member "Code" error with
      | error failure => rfl
      | ok code => rfl
  rw [hseek, seek_eq]
  cases response.snag codePath <;> rfl

theorem httpStatus_eq :
    httpStatus response
      =
    match response.snag statusPath with
    | some w => .error (noMember w)
    | none => .ok (response.part statusPath) := by
  rw [← seek_eq]
  unfold httpStatus statusPath
  dsimp only [seek, bind, Except.bind]
  cases member "ResponseMetadata" response with
  | error failure => rfl
  | ok metadata =>
    dsimp only
    cases member "HTTPStatusCode" metadata with
    | error failure => rfl
    | ok code => rfl

end Response

/-- What a store may have to know of an error: that there was no object, or that there was one. -/
inductive Question where
  | absent
  | present
deriving DecidableEq

namespace Question

def ask : Question → Backend → Failure → Except Failure Bool
  | absent, .gcs, e => .ok (Gcs.isNotFound e)
  | present, .gcs, e => .ok (Gcs.collides e)
  | absent, .s3, e => S3.isNotFound e
  | present, .s3, e => S3.collides e
  | _, .files, _ => .ok false

def response? (e : Failure) : Option Value :=
  match e.reason with
  | .provider (.response response _) => some response
  | _ => none

def holds : Question → Backend → Failure → Bool
  | absent, .gcs, e => Gcs.isNotFound e
  | present, .gcs, e => Gcs.collides e
  | absent, .s3, e => (response? e).any fun r => S3.notFoundCodes.contains (r.part codePath).told
  | present, .s3, e => (response? e).any fun r =>
    (r.part codePath).told = "PreconditionFailed" || (r.part statusPath).isNumber 412
  | _, .files, _ => false

/-- What keeps a store from reading the response of an error as far as a question needs it. -/
def snag : Question → Backend → Failure → Option Value
  | absent, .s3, e => (response? e).bind (·.snag codePath)
  | present, .s3, e => (response? e).bind fun r =>
    (r.snag codePath).or <|
      if (r.part codePath).told = "PreconditionFailed" then none else r.snag statusPath
  | _, _, _ => none

theorem ask_absent_eq (e : Failure) :
    absent.ask .s3 e
      =
    match absent.snag .s3 e with
    | some w => .error (noMember w)
    | none => .ok (absent.holds .s3 e) := by
  obtain ⟨reason, cause⟩ := e
  cases reason with
  | provider error =>
    cases error with
    | status name message => rfl
    | response response operation =>
      change (do return S3.notFoundCodes.contains (← errorCode response)) =
        match response.snag codePath with
        | some w => .error (noMember w)
        | none => .ok (S3.notFoundCodes.contains (response.part codePath).told)
      rw [errorCode_eq]
      cases response.snag codePath with
      | some w => rfl
      | none => rfl
  | _ => rfl

theorem ask_present_eq (e : Failure) :
    present.ask .s3 e
      =
    match present.snag .s3 e with
    | some w => .error (noMember w)
    | none => .ok (present.holds .s3 e) := by
  obtain ⟨reason, cause⟩ := e
  cases reason with
  | provider error =>
    cases error with
    | status name message => rfl
    | response response operation =>
      unfold ask S3.collides snag holds response?
      dsimp only [Option.bind, Option.any]
      rw [errorCode_eq, httpStatus_eq]
      cases response.snag codePath with
      | some w => rfl
      | none =>
        dsimp only [bind, Except.bind, Option.or]
        -- The status is read only if the code does not decide.
        by_cases hcode : (response.part codePath).told = "PreconditionFailed"
        · rw [if_pos hcode, if_pos hcode, decide_eq_true hcode]
          rfl
        · rw [if_neg hcode, if_neg hcode, decide_eq_false hcode]
          cases response.snag statusPath with
          | some w => rfl
          | none => rfl
  | _ => rfl

theorem ask_eq (q : Question) (backend : Backend) (e : Failure) :
    q.ask backend e
      =
    match q.snag backend e with
    | some w => .error (noMember w)
    | none => .ok (q.holds backend e) := by
  cases backend with
  | files => cases q <;> rfl
  | gcs => cases q <;> rfl
  | s3 =>
    cases q with
    | absent => exact ask_absent_eq e
    | present => exact ask_present_eq e

/-- Whether an error carries the response that it was made of. -/
def AsMade (e : Failure) : Prop :=
  ∀ response text, e.reason = .provider (.response response text) →
    ∃ operation, ProviderError.ofResponse? response operation = some (.response response text)

theorem AsMade.snag_eq_none {e : Failure} (h : AsMade e) (q : Question) (backend : Backend) :
    q.snag backend e = none := by
  obtain ⟨reason, cause⟩ := e
  have hread : ∀ response, response? ⟨reason, cause⟩ = some response →
      response.snag codePath = none ∧ response.snag statusPath = none := by
    intro response hresponse
    cases reason with
    | provider error =>
      cases error with
      | status name message => cases hresponse
      | response held text =>
        cases hresponse
        obtain ⟨operation, hmade⟩ := h _ _ rfl
        unfold ProviderError.ofResponse? at hmade
        obtain ⟨metadata, hmetadata, hrest⟩ := Option.bind_eq_some_iff.1 hmade
        obtain ⟨error, herror, -⟩ := Option.bind_eq_some_iff.1 hrest
        exact ⟨Cloud.snag_eq_none _ herror, Cloud.snag_eq_none _ hmetadata⟩
    | _ => cases hresponse
  cases backend with
  | files => cases q <;> rfl
  | gcs => cases q <;> rfl
  | s3 =>
    unfold snag
    cases hresponse : response? ⟨reason, cause⟩ with
    | none => cases q <;> simp only [hresponse, Option.bind_none]
    | some response =>
      obtain ⟨hcode, hstatus⟩ := hread response hresponse
      cases q <;> simp [hresponse, hcode, hstatus]

end Question

/--
What becomes of an error about which a store asks something, or nothing: what it comes to if the
answer is yes, the error itself if it is no, and another error if the response cannot be read.
-/
def judge {α : Type} (backend : Backend) (e : Failure) (yes : Except Failure α) :
    Option Question → Except Failure α
  | none => .error e
  | some q =>
    match q.snag backend e with
    | some w => .error (noMember w)
    | none => if q.holds backend e then yes else .error e

theorem map_judge_yields {α β : Type} {act : Action α} {world world' : World} {backend : Backend}
    {e : Failure} {yes : Except Failure α} {asked : Option Question} (f : α → β)
    (h : act.Yields world (judge backend e yes asked) world') :
    (f <$> act).Yields world (judge backend e (yes.map f) asked) world' := by
  have hjudge : (judge backend e yes asked).map f = judge backend e (yes.map f) asked := by
    cases asked with
    | none => rfl
    | some q =>
      unfold judge
      dsimp only
      cases q.snag backend e with
      | some w => rfl
      | none => cases q.holds backend e <;> rfl
  rw [← hjudge]
  exact h.map f

theorem exists_judge_eq (backend : Backend) (e failure : Failure) (asked : Option Question) :
    ∃ other, ∀ α : Type,
      (judge backend e (.error failure) asked : Except Failure α) = .error other := by
  cases asked with
  | none => exact ⟨e, fun _ => rfl⟩
  | some q =>
    unfold judge
    dsimp only
    cases q.snag backend e with
    | some w => exact ⟨noMember w, fun _ => rfl⟩
    | none =>
      cases q.holds backend e with
      | true => exact ⟨failure, fun _ => rfl⟩
      | false => exact ⟨e, fun _ => rfl⟩

theorem judge_yields {α : Type} {act : Action α} {world : World} {yes : Except Failure α}
    (backend : Backend) (e : Failure) (q : Question) (h : act.Yields world yes world) :
    (do if ← Action.ofResult (q.ask backend e) then act else throw e : Action α).Yields world
      (judge backend e yes (some q)) world := by
  unfold judge
  rw [Question.ask_eq]
  dsimp only
  cases q.snag backend e with
  | some w => exact (Yields.ofResult _ world).bind_error
  | none =>
    refine (Yields.ofResult _ world).bind ?_
    cases q.holds backend e with
    | true => exact h
    | false => exact .throw _ world

theorem refused_eq_judge (backend : Backend) (overwrite : Bool) (e : Failure) :
    refused (Question.present.ask backend) overwrite e
      =
    judge backend e (.ok false) (if overwrite || e.interrupts then none else some .present) := by
  unfold refused
  cases overwrite || e.interrupts with
  | true => rfl
  | false =>
    rw [if_neg Bool.false_ne_true, if_neg Bool.false_ne_true, Question.ask_eq]
    unfold judge
    dsimp only
    cases Question.present.snag backend e with
    | some w => rfl
    | none => cases Question.present.holds backend e <;> rfl

end Cloud

namespace Store

inductive Ask where
  | write (name : String) (source : Source) (overwrite : Option Bool)
  | opening (name : String)
  | delete (name : String)
  | contains (name : String)

namespace Ask

def perform (store : Store) : Ask → Action (Option Bool)
  | write name source overwrite => some <$> store.write name source overwrite
  | opening name => (fun _ => none) <$> store.openReader name
  | delete name => (fun _ => none) <$> store.delete name
  | contains name => some <$> store.contains name

/-- What an error comes to if the answer to the question about it is yes. -/
def answer (store : Store) (e : Failure) : Ask → Except Failure (Option Bool)
  | write _ _ _ | contains _ => .ok (some false)
  | opening name | delete name => .error (store.notFound name (some e.reason))

def replaces (store : Store) : Ask → Bool
  | write _ _ overwrite => store.mayReplace overwrite
  | opening _ | delete _ | contains _ => false

end Ask

def writeAsks (store : Store) (overwrite : Option Bool) (e : Failure) : Option Cloud.Question :=
  if store.mayReplace overwrite || e.interrupts then none else some .present

/--
Whether a call on the client fails with an error, once an operation comes to make it; what the store
asks about that error, and the world that the call leaves.
-/
inductive Raises (store : Store) (world : World) (e : Failure) :
    Ask → Option Cloud.Question → World → Prop where
  | upload {name : String} {source : Source} {overwrite : Option Bool} {world' : World}
      (hgcs : store.backend = .gcs)
      (h : (Gcs.upload store (store.key name) source !store.mayReplace overwrite).Yields world
        (.error e) world') :
      Raises store world e (.write name source overwrite) (store.writeAsks overwrite e) world'
  | openBlob {name : String} {world' : World} (hgcs : store.backend = .gcs)
      (h : (Cloud.Gcs.getBlob (store.key name)).Yields world (.error e) world') :
      Raises store world e (.opening name) none world'
  | openRead {name : String} {raw : ByteArray} {world₁ world' : World}
      (hgcs : store.backend = .gcs)
      (hblob : (Cloud.Gcs.getBlob (store.key name)).Yields world (.ok (some raw)) world₁)
      (h : (Cloud.record (.openRead (store.key name))).Yields world₁ (.error e) world') :
      Raises store world e (.opening name) none world'
  | deleteBlob {name : String} {world' : World} (hgcs : store.backend = .gcs)
      (h : (Cloud.Gcs.deleteBlob (store.key name)).Yields world (.error e) world') :
      Raises store world e (.delete name) (some .absent) world'
  | findBlob {name : String} {world' : World} (hgcs : store.backend = .gcs)
      (h : (Cloud.Gcs.getBlob (store.key name)).Yields world (.error e) world') :
      Raises store world e (.contains name) (some .absent) world'
  | putObject {name : String} {source : Source} {overwrite : Option Bool} {body : ByteArray}
      {world' : World} (hs3 : store.backend = .s3) (hsource : source.content = .ok body)
      (h : (Cloud.S3.putObject store.location.host (store.key name) contentType (store.raw source)
        !store.mayReplace overwrite).Yields world (.error e) world') :
      Raises store world e (.write name source overwrite) (store.writeAsks overwrite e) world'
  | getObject {name : String} {world' : World} (hs3 : store.backend = .s3)
      (h : (Cloud.S3.getObject store.location.host (store.key name)).Yields world
        (.error e) world') :
      Raises store world e (.opening name) (some .absent) world'
  | headDeleted {name : String} {world' : World} (hs3 : store.backend = .s3)
      (h : (Cloud.S3.headObject store.location.host (store.key name)).Yields world
        (.error e) world') :
      Raises store world e (.delete name) (some .absent) world'
  | deleteObject {name : String} {world₁ world' : World} (hs3 : store.backend = .s3)
      (hhead : (Cloud.S3.headObject store.location.host (store.key name)).Yields world
        (.ok ()) world₁)
      (h : (Cloud.S3.deleteObject store.location.host (store.key name)).Yields world₁
        (.error e) world') :
      Raises store world e (.delete name) none world'
  | headObject {name : String} {world' : World} (hs3 : store.backend = .s3)
      (h : (Cloud.S3.headObject store.location.host (store.key name)).Yields world
        (.error e) world') :
      Raises store world e (.contains name) (some .absent) world'

section Operations

variable {store : Store} {world world' : World} {e : Failure} {name : String} {source : Source}
  {overwrite : Option Bool}

section Gcs

variable (hgcs : store.backend = .gcs)

include hgcs

theorem write_yields_of_upload
    (h : (Gcs.upload store (store.key name) source !store.mayReplace overwrite).Yields world
      (.error e) world') :
    (store.write name source overwrite).Yields world
      (Cloud.judge store.backend e (.ok false) (store.writeAsks overwrite e)) world' := by
  have hwrite : (Gcs.write store name source (store.mayReplace overwrite)).Yields world
      (refused (Cloud.Question.present.ask .gcs) (store.mayReplace overwrite) e) world' :=
    noted_yields (conditionalWrite_yields_of_error h)
  rw [Cloud.refused_eq_judge] at hwrite
  apply write_yields
  rw [hgcs]
  exact hwrite

theorem openReader_yields_of_blob
    (h : (Cloud.Gcs.getBlob (store.key name)).Yields world (.error e) world') :
    (store.openReader name).Yields world (.error e) world' := by
  apply openReader_yields_of_error
  unfold openRaw Gcs.openRaw
  rw [hgcs]
  exact (note_yields _ _ _ world).bind h.bind_error

theorem openReader_yields_of_read {raw : ByteArray} {world₁ : World}
    (hblob : (Cloud.Gcs.getBlob (store.key name)).Yields world (.ok (some raw)) world₁)
    (h : (Cloud.record (.openRead (store.key name))).Yields world₁ (.error e) world') :
    (store.openReader name).Yields world (.error e) world' := by
  apply openReader_yields_of_error
  unfold openRaw Gcs.openRaw
  rw [hgcs]
  exact (note_yields _ _ _ world).bind (hblob.bind h.bind_error)

theorem delete_yields_of_blob
    (h : (Cloud.Gcs.deleteBlob (store.key name)).Yields world (.error e) world') :
    (store.delete name).Yields world
      (Cloud.judge store.backend e (.error (store.notFound name (some e.reason))) (some .absent))
      world' := by
  apply delete_yields
  rw [hgcs]
  unfold Gcs.delete
  exact h.attempt.bind (Cloud.judge_yields .gcs e .absent (.throw _ world'))

theorem contains_yields_of_blob
    (h : (Cloud.Gcs.getBlob (store.key name)).Yields world (.error e) world') :
    (store.contains name).Yields world
      (Cloud.judge store.backend e (.ok false) (some .absent)) world' := by
  apply contains_yields
  rw [hgcs]
  unfold Gcs.contains
  exact h.attempt.bind (Cloud.judge_yields .gcs e .absent (.pure false world'))

end Gcs

section S3

variable (hs3 : store.backend = .s3)

include hs3

theorem write_yields_of_put {body : ByteArray} (hsource : source.content = .ok body)
    (h : (Cloud.S3.putObject store.location.host (store.key name) contentType (store.raw source)
      !store.mayReplace overwrite).Yields world (.error e) world') :
    (store.write name source overwrite).Yields world
      (Cloud.judge store.backend e (.ok false) (store.writeAsks overwrite e)) world' := by
  have hwrite : (S3.write store name source (store.mayReplace overwrite)).Yields world
      (refused (Cloud.Question.present.ask .s3) (store.mayReplace overwrite) e) world' :=
    S3.write_yields_of_put hsource (conditionalWrite_yields_of_error h)
  rw [Cloud.refused_eq_judge] at hwrite
  apply write_yields
  rw [hs3]
  exact hwrite

theorem raise_yields_judge {α : Type} (name : String) (e : Failure) (world : World) :
    (S3.raise store name e : Action α).Yields world
      (Cloud.judge store.backend e (.error (store.notFound name (some e.reason))) (some .absent))
      world := by
  rw [hs3]
  exact Cloud.judge_yields .s3 e .absent (.throw _ world)

theorem openReader_yields_of_get
    (h : (Cloud.S3.getObject store.location.host (store.key name)).Yields world
      (.error e) world') :
    (store.openReader name).Yields world
      (Cloud.judge store.backend e (.error (store.notFound name (some e.reason))) (some .absent))
      world' := by
  have hraise : (S3.raise store name e : Action ByteArray).Yields world' _ world' :=
    raise_yields_judge hs3 name e world'
  -- It is an error in any case, so it is one of the reader as it is one of the bytes.
  obtain ⟨other, hother⟩ := Cloud.exists_judge_eq store.backend e
    (store.notFound name (some e.reason)) (some .absent)
  rw [hother] at hraise ⊢
  apply openReader_yields_of_error
  unfold openRaw S3.openRaw
  rw [hs3]
  exact (note_yields _ _ _ world).bind (h.attempt.bind hraise)

theorem delete_yields_of_head
    (h : (Cloud.S3.headObject store.location.host (store.key name)).Yields world
      (.error e) world') :
    (store.delete name).Yields world
      (Cloud.judge store.backend e (.error (store.notFound name (some e.reason))) (some .absent))
      world' := by
  have hraise : (S3.raise store name e : Action Unit).Yields world' _ world' :=
    raise_yields_judge hs3 name e world'
  apply delete_yields
  rw [hs3] at hraise ⊢
  unfold S3.delete
  exact h.attempt.bind hraise

theorem delete_yields_of_delete {world₁ : World}
    (hhead : (Cloud.S3.headObject store.location.host (store.key name)).Yields world
      (.ok ()) world₁)
    (h : (Cloud.S3.deleteObject store.location.host (store.key name)).Yields world₁
      (.error e) world') :
    (store.delete name).Yields world (.error e) world' := by
  apply delete_yields
  rw [hs3]
  unfold S3.delete
  exact hhead.attempt.bind h.bind_error

theorem contains_yields_of_head
    (h : (Cloud.S3.headObject store.location.host (store.key name)).Yields world
      (.error e) world') :
    (store.contains name).Yields world
      (Cloud.judge store.backend e (.ok false) (some .absent)) world' := by
  apply contains_yields
  rw [hs3]
  unfold S3.contains
  exact h.attempt.bind (Cloud.judge_yields .s3 e .absent (.pure false world'))

end S3

end Operations

theorem perform_yields_judge {store : Store} {world world' : World} {e : Failure} {ask : Ask}
    {asked : Option Cloud.Question} (h : store.Raises world e ask asked world') :
    (ask.perform store).Yields world
      (Cloud.judge store.backend e (ask.answer store e) asked) world' := by
  cases h with
  | upload hgcs h => exact Cloud.map_judge_yields _ (write_yields_of_upload hgcs h)
  | openBlob hgcs h => exact (openReader_yields_of_blob hgcs h).map _
  | openRead hgcs hblob h => exact (openReader_yields_of_read hgcs hblob h).map _
  | deleteBlob hgcs h => exact Cloud.map_judge_yields _ (delete_yields_of_blob hgcs h)
  | findBlob hgcs h => exact Cloud.map_judge_yields _ (contains_yields_of_blob hgcs h)
  | putObject hs3 hsource h => exact Cloud.map_judge_yields _ (write_yields_of_put hs3 hsource h)
  | getObject hs3 h => exact Cloud.map_judge_yields _ (openReader_yields_of_get hs3 h)
  | headDeleted hs3 h => exact Cloud.map_judge_yields _ (delete_yields_of_head hs3 h)
  | deleteObject hs3 hhead h => exact (delete_yields_of_delete hs3 hhead h).map _
  | headObject hs3 h => exact Cloud.map_judge_yields _ (contains_yields_of_head hs3 h)

/-- What a caller is told of an error of the provider: an answer, an error for it, or the error. -/
inductive Told (store : Store) (e : Failure) : Ask → Except Failure (Option Bool) → Prop where
  | skipped {name : String} {source : Source} {overwrite : Option Bool}
      (hkeeps : store.mayReplace overwrite = false)
      (h : Cloud.Question.present.holds store.backend e = true) :
      Told store e (.write name source overwrite) (.ok (some false))
  | missed {name : String} (h : Cloud.Question.absent.holds store.backend e = true) :
      Told store e (.contains name) (.ok (some false))
  | unopened {name : String} (h : Cloud.Question.absent.holds store.backend e = true) :
      Told store e (.opening name) (.error (store.notFound name (some e.reason)))
  | undeleted {name : String} (h : Cloud.Question.absent.holds store.backend e = true) :
      Told store e (.delete name) (.error (store.notFound name (some e.reason)))
  | passed {ask : Ask} : Told store e ask (.error e)

section Told

variable {store : Store} {world world' : World} {e : Failure} {ask : Ask}
  {asked : Option Cloud.Question}

theorem writeAsks_eq_some {overwrite : Option Bool} {q : Cloud.Question}
    (h : store.writeAsks overwrite e = some q) :
    store.mayReplace overwrite = false ∧ q = .present := by
  unfold writeAsks at h
  cases hpassed : store.mayReplace overwrite || e.interrupts with
  | true =>
    rw [if_pos hpassed] at h
    cases h
  | false =>
    rw [hpassed, if_neg Bool.false_ne_true] at h
    exact ⟨(Bool.or_eq_false_iff.1 hpassed).1, (Option.some.inj h).symm⟩

theorem Raises.told_answer (h : store.Raises world e ask asked world') {q : Cloud.Question}
    (hasked : asked = some q) (hholds : q.holds store.backend e = true) :
    Told store e ask (ask.answer store e) := by
  have hwrite : ∀ {name source overwrite}, store.writeAsks overwrite e = some q →
      Told store e (.write name source overwrite) (.ok (some false)) := by
    intro name source overwrite hasks
    obtain ⟨hkeeps, rfl⟩ := writeAsks_eq_some hasks
    exact .skipped hkeeps hholds
  cases h with
  | upload hgcs h => exact hwrite hasked
  | putObject hs3 hsource h => exact hwrite hasked
  | openBlob hgcs h => cases hasked
  | openRead hgcs hblob h => cases hasked
  | deleteObject hs3 hhead h => cases hasked
  | getObject hs3 h =>
    cases hasked
    exact .unopened hholds
  | deleteBlob hgcs h =>
    cases hasked
    exact .undeleted hholds
  | headDeleted hs3 h =>
    cases hasked
    exact .undeleted hholds
  | findBlob hgcs h =>
    cases hasked
    exact .missed hholds
  | headObject hs3 h =>
    cases hasked
    exact .missed hholds

theorem Raises.asked_eq_none (h : store.Raises world e ask asked world')
    (hreplaces : ask.replaces store = true) : asked = none := by
  have hwrite : ∀ {overwrite}, store.mayReplace overwrite = true →
      store.writeAsks overwrite e = none := by
    intro overwrite hmay
    unfold writeAsks
    rw [hmay]
    rfl
  cases h with
  | upload hgcs h => exact hwrite hreplaces
  | putObject hs3 hsource h => exact hwrite hreplaces
  | openBlob hgcs h => rfl
  | openRead hgcs hblob h => rfl
  | deleteObject hs3 hhead h => rfl
  | getObject hs3 h => cases hreplaces
  | deleteBlob hgcs h => cases hreplaces
  | headDeleted hs3 h => cases hreplaces
  | findBlob hgcs h => cases hreplaces
  | headObject hs3 h => cases hreplaces

theorem not_told_of_snag {q : Cloud.Question} {w : Value}
    (h : q.snag store.backend e = some w) : ¬ Told store e ask (.error (Cloud.noMember w)) := by
  intro htold
  generalize houtcome : (.error (Cloud.noMember w) : Except Failure (Option Bool)) = outcome
    at htold
  cases htold with
  | skipped hkeeps hholds => cases houtcome
  | missed hholds => cases houtcome
  | unopened hholds => cases houtcome
  | undeleted hholds => cases houtcome
  | passed =>
    cases houtcome
    cases q <;> cases hbackend : store.backend <;> rw [hbackend] at h <;> cases h

theorem told_judge_iff (h : store.Raises world e ask asked world') :
    Told store e ask (Cloud.judge store.backend e (ask.answer store e) asked)
      ↔ ∀ q, asked = some q → q.snag store.backend e = none := by
  unfold Cloud.judge
  cases asked with
  | none =>
    refine ⟨fun _ q hq => ?_, fun _ => .passed⟩
    cases hq
  | some q =>
    dsimp only
    cases hsnag : q.snag store.backend e with
    | some w =>
      refine ⟨fun htold => absurd htold (not_told_of_snag hsnag), fun hnone => ?_⟩
      have hq := hnone q rfl
      rw [hsnag] at hq
      cases hq
    | none =>
      refine ⟨fun _ q' hq' => ?_, fun _ => ?_⟩
      · cases hq'
        exact hsnag
      · cases hholds : q.holds store.backend e with
        | true => exact h.told_answer rfl hholds
        | false => exact .passed

end Told

inductive Unharmed (store : Store) (world : World) : Ask → World → Prop where
  | returned {ask : Ask} {result : Option Bool} {world' : World}
      (h : (ask.perform store).Yields world (.ok result) world') : Unharmed store world ask world'
  | unread {name : String} {source : Source} {overwrite : Option Bool} {failure : Failure}
      (hsource : source.content = .error failure)
      (h : ((Ask.write name source overwrite).perform store).Yields world (.error failure) world) :
      Unharmed store world (.write name source overwrite) world
  | missing {name : String}
      (h : ((Ask.opening name).perform store).Yields world (.error (store.notFound name)) world) :
      Unharmed store world (.opening name) world

section Unharmed

variable {store : Store} {world world' : World} {name : String} {source : Source}
  {overwrite : Option Bool}

theorem Unharmed.of_write {written : Bool}
    (h : (store.write name source overwrite).Yields world (.ok written) world') :
    store.Unharmed world (.write name source overwrite) world' :=
  .returned (h.map some)

theorem Unharmed.of_openRaw {raw : ByteArray}
    (h : (store.openRaw name).Yields world (.ok raw) world') :
    store.Unharmed world (.opening name) world' := by
  obtain ⟨reader, hopen, -⟩ := openReader_yields_of_ok h
  exact .returned (hopen.map fun _ => none)

theorem Unharmed.of_delete (h : (store.delete name).Yields world (.ok ()) world') :
    store.Unharmed world (.delete name) world' :=
  .returned (h.map fun _ => none)

theorem Unharmed.of_contains {found : Bool}
    (h : (store.contains name).Yields world (.ok found) world') :
    store.Unharmed world (.contains name) world' :=
  .returned (h.map some)

theorem upload_settles (key : String) (onlyNew : Bool) (world : World) :
    (Gcs.upload store key source onlyNew).Settles world := by
  unfold Gcs.upload
  refine (Cloud.record_settles _ world).bind fun _ world₁ => ?_
  refine (compress_settles store source world₁).bind fun body world₂ => ?_
  exact (Cloud.record_settles _ world₂).bind fun _ world₃ => Cloud.store_settles _ _ _ _ world₃

theorem gcs_raises_or_unharmed (hgcs : store.backend = .gcs) (ask : Ask) (world : World) :
    (∃ e asked world', store.Raises world e ask asked world')
      ∨ ∃ world', store.Unharmed world ask world' := by
  cases ask with
  | write name source overwrite =>
    obtain ⟨result, world', h⟩ :=
      upload_settles (store.key name) (!store.mayReplace overwrite) world
    cases result with
    | error e => exact .inl ⟨e, _, world', .upload hgcs h⟩
    | ok done =>
      have hwrite : (store.write name source overwrite).Yields world (.ok true) world' := by
        apply write_yields
        rw [hgcs]
        exact noted_yields (conditionalWrite_yields_of_ok h)
      exact .inr ⟨world', .of_write hwrite⟩
  | opening name =>
    obtain ⟨result, hblob⟩ := Cloud.Gcs.getBlob_keeps (store.key name) world
    cases result with
    | error e => exact .inl ⟨e, _, world, .openBlob hgcs hblob⟩
    | ok found =>
      cases found with
      | none =>
        have hopen : (store.openRaw name).Yields world (.error (store.notFound name)) world := by
          unfold openRaw Gcs.openRaw
          rw [hgcs]
          exact (note_yields _ _ _ world).bind (hblob.bind (.throw _ world))
        exact .inr ⟨world, .missing ((openReader_yields_of_error hopen).map fun _ => none)⟩
      | some raw =>
        obtain ⟨result, hread⟩ := Cloud.record_keeps (.openRead (store.key name)) world
        cases result with
        | error e => exact .inl ⟨e, _, world, .openRead hgcs hblob hread⟩
        | ok done =>
          have hopen : (store.openRaw name).Yields world (.ok raw) world := by
            unfold openRaw Gcs.openRaw
            rw [hgcs]
            refine (note_yields _ _ _ world).bind (hblob.bind ?_)
            exact hread.bind (.pure raw world)
          exact .inr ⟨world, .of_openRaw hopen⟩
  | delete name =>
    obtain ⟨result, world', h⟩ := Cloud.Gcs.deleteBlob_settles (store.key name) world
    cases result with
    | error e => exact .inl ⟨e, _, world', .deleteBlob hgcs h⟩
    | ok done =>
      refine .inr ⟨world', .of_delete (delete_yields ?_)⟩
      rw [hgcs]
      exact h.attempt.bind (note_yields _ _ _ world')
  | contains name =>
    obtain ⟨result, h⟩ := Cloud.Gcs.getBlob_keeps (store.key name) world
    cases result with
    | error e => exact .inl ⟨e, _, world, .findBlob hgcs h⟩
    | ok found =>
      have hcontains : (store.contains name).Yields world (.ok found.isSome) world := by
        apply contains_yields
        rw [hgcs]
        exact h.attempt.bind (.pure _ world)
      exact .inr ⟨world, .of_contains hcontains⟩

theorem s3_raises_or_unharmed (hs3 : store.backend = .s3) (ask : Ask) (world : World) :
    (∃ e asked world', store.Raises world e ask asked world')
      ∨ ∃ world', store.Unharmed world ask world' := by
  cases ask with
  | write name source overwrite =>
    cases hsource : source.content with
    | error failure =>
      have hwrite : (store.write name source overwrite).Yields world (.error failure) world := by
        apply write_yields
        rw [hs3]
        exact S3.write_yields_of_source hsource
      exact .inr ⟨world, .unread hsource (hwrite.map some)⟩
    | ok body =>
      obtain ⟨result, world', h⟩ := Cloud.S3.putObject_settles store.location.host
        (store.key name) contentType (store.raw source) (!store.mayReplace overwrite) world
      cases result with
      | error e => exact .inl ⟨e, _, world', .putObject hs3 hsource h⟩
      | ok done =>
        have hwrite : (store.write name source overwrite).Yields world (.ok true) world' := by
          apply write_yields
          rw [hs3]
          exact S3.write_yields_of_put hsource (conditionalWrite_yields_of_ok h)
        exact .inr ⟨world', .of_write hwrite⟩
  | opening name =>
    obtain ⟨result, h⟩ := Cloud.S3.getObject_keeps store.location.host (store.key name) world
    cases result with
    | error e => exact .inl ⟨e, _, world, .getObject hs3 h⟩
    | ok raw =>
      have hopen : (store.openRaw name).Yields world (.ok raw) world := by
        unfold openRaw S3.openRaw
        rw [hs3]
        exact (note_yields _ _ _ world).bind (h.attempt.bind (.pure raw world))
      exact .inr ⟨world, .of_openRaw hopen⟩
  | delete name =>
    obtain ⟨result, hhead⟩ := Cloud.S3.headObject_keeps store.location.host (store.key name) world
    cases result with
    | error e => exact .inl ⟨e, _, world, .headDeleted hs3 hhead⟩
    | ok there =>
      obtain ⟨result, world', h⟩ :=
        Cloud.S3.deleteObject_settles store.location.host (store.key name) world
      cases result with
      | error e => exact .inl ⟨e, _, world', .deleteObject hs3 hhead h⟩
      | ok done =>
        refine .inr ⟨world', .of_delete (delete_yields ?_)⟩
        rw [hs3]
        unfold S3.delete
        exact hhead.attempt.bind (h.bind (note_yields _ _ _ world'))
  | contains name =>
    obtain ⟨result, h⟩ := Cloud.S3.headObject_keeps store.location.host (store.key name) world
    cases result with
    | error e => exact .inl ⟨e, _, world, .headObject hs3 h⟩
    | ok there =>
      have hcontains : (store.contains name).Yields world (.ok true) world := by
        apply contains_yields
        rw [hs3]
        exact h.attempt.bind (.pure true world)
      exact .inr ⟨world, .of_contains hcontains⟩

end Unharmed

/--
What becomes of the errors of a provider. Whatever is asked of a store in a bucket, either no call
on the client fails, or the error of a call that fails is judged by what the store asks about it: it
is told as what it means or passed on as it is, always if it carries the response that it was made
of, and else unless that cannot be read as far as the question needs it.
-/
theorem errors_judged (store : Store) (hbucket : store.backend ≠ .files) (ask : Ask)
    (world : World) :
    (∀ e asked world', store.Raises world e ask asked world' →
      ((ask.perform store).perform world).1 = Cloud.judge store.backend e (ask.answer store e) asked
        ∧ (Told store e ask ((ask.perform store).perform world).1
            ↔ ∀ q, asked = some q → q.snag store.backend e = none)
        ∧ (Cloud.Question.AsMade e → Told store e ask ((ask.perform store).perform world).1)
        ∧ (ask.replaces store = true → ((ask.perform store).perform world).1 = .error e))
      ∧ ((∃ e asked world', store.Raises world e ask asked world')
          ∨ ∃ world', store.Unharmed world ask world') := by
  refine ⟨fun e asked world' h => ?_, ?_⟩
  · rw [(perform_yields_judge h).fst_eq]
    refine ⟨rfl, told_judge_iff h, fun hmade => ?_, fun hreplaces => ?_⟩
    · exact (told_judge_iff h).2 fun q _ => hmade.snag_eq_none q store.backend
    · rw [h.asked_eq_none hreplaces]
      rfl
  · cases hbackend : store.backend with
    | files => exact absurd hbackend hbucket
    | gcs => exact gcs_raises_or_unharmed hbackend ask world
    | s3 => exact s3_raises_or_unharmed hbackend ask world

def bucketStore : Store :=
  { backend := .s3, location := ⟨"s3", "b", ""⟩ }

/-- An error of an upload of which the code says nothing, but the number of the status does. -/
def numberedError : Failure :=
  let response := Value.object [("Error", .object [("Code", .text "Refused")]),
    ("ResponseMetadata", .object [("HTTPStatusCode", .int 412)])]
  { reason := .provider (.response response
      "An error occurred (Refused) when calling the PutObject operation: Unknown") }

def refusing (e : Failure) : World :=
  { tree := { nodes := .empty }, fault := some ("put_object", e) }

def sampleWrite : Ask :=
  .write "n" (.ofBytes "x".toUTF8) none

theorem errors_judged_numbered :
    bucketStore.backend ≠ .files
      ∧ bucketStore.Raises (refusing numberedError) numberedError sampleWrite (some .present)
        (refusing numberedError)
      ∧ Cloud.Question.AsMade numberedError
      ∧ ((sampleWrite.perform bucketStore).perform (refusing numberedError)).1 = .ok (some false)
      ∧ Told bucketStore numberedError sampleWrite (.ok (some false)) := by
  have hbucket : bucketStore.backend ≠ .files := by decide
  have hraises : bucketStore.Raises (refusing numberedError) numberedError sampleWrite
      (some .present) (refusing numberedError) :=
    .putObject rfl (Source.content_ofBytes _) (S3.putObject_yields_of_met rfl)
  have hmade : Cloud.Question.AsMade numberedError := by
    intro response text hreason
    cases hreason
    exact ⟨"PutObject", by rfl⟩
  obtain ⟨hjudge, -, htold, -⟩ :=
    (errors_judged bucketStore hbucket sampleWrite (refusing numberedError)).1 _ _ _ hraises
  have hskipped : ((sampleWrite.perform bucketStore).perform (refusing numberedError)).1
      = .ok (some false) := hjudge.trans rfl
  rw [hskipped] at htold
  exact ⟨hbucket, hraises, hmade, hskipped, htold hmade⟩

end Store

end Depot
