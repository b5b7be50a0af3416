import Depot.Proofs.Closing.Uses

/-!
This module contains the proof that the readers of bodies are nests: whatever they are used for, the
nest over the body, used in the same way, brings the same and runs the same hooks.
-/

namespace Depot

open Nest

def Codec.Body.draw : Draw Codec.Body := fun closed size body =>
  if closed then (.error (Reader.closedFailure (Reader.closedStream body)), body)
  else
    let (result, body) :=
      match size with
      | some size => body.read size
      | none => body.readAll
    (result.mapError fun fault => { reason := .codec fault }, body)

def Delivery.given? : Delivery → Option Delivery
  | closed => none
  | delivery => some delivery

def Use.step (r : Reader) : Use → Step
  | read size => .read 0 (.some size)
  | readInto buffer => .read 0 (.into buffer)
  | readLine => .read 0 (.line (r.body.left + 1))
  | readAll => .read 0 .all
  | close => .close 0
  | readAndClose => .within 0 [.read 0 .all]

namespace Reader

def useEach : List Use → Reader → List (Except Failure Delivery) × Reader
  | [], r => ([], r)
  | use :: uses, r =>
    let (result, r) := use.perform r
    let (results, r) := useEach uses r
    (result :: results, r)

def steps : List Use → Reader → List Step
  | [], _ => []
  | use :: uses, r => use.step r :: steps uses (use.perform r).2

/-- A reader in layers that run hooks, either all closed or all open. -/
def held (hooks : List Hook) (closed : Bool) (body : Codec.Body) : Reader :=
  { body
    layers := hooks.map (⟨·, closed⟩)
    closed
    rawClosed := closed
    ran := if closed then runs hooks else [] }

variable {hooks : List Hook} {closed : Bool} {body : Codec.Body}

theorem foldr_wrap (hooks : List Hook) (scheme : Codec.Scheme) (raw : ByteArray) :
    hooks.foldr (fun hook r => r.wrap hook) (ofBytes scheme raw)
      =
    held hooks false (.ofBytes scheme raw) := by
  induction hooks with
  | nil => rfl
  | cons hook hooks ih =>
    rw [List.foldr_cons, ih]
    rfl

theorem read_held (hooks : List Hook) (closed : Bool) (body : Codec.Body) (size : Nat) :
    (held hooks closed body).read size
      =
    ((body.draw closed (some size)).1, held hooks closed (body.draw closed (some size)).2) := by
  cases closed with
  | true => rfl
  | false =>
    unfold read answer Codec.Body.draw held
    rw [if_neg Bool.false_ne_true, if_neg Bool.false_ne_true]
    dsimp only
    cases (body.read size).1 with
    | error fault => rfl
    | ok bytes => rfl

theorem readAll_held (hooks : List Hook) (closed : Bool) (body : Codec.Body) :
    (held hooks closed body).readAll
      =
    ((body.draw closed none).1, held hooks closed (body.draw closed none).2) := by
  cases closed with
  | true => rfl
  | false =>
    unfold readAll answer Codec.Body.draw held
    rw [if_neg Bool.false_ne_true, if_neg Bool.false_ne_true]
    dsimp only
    cases body.readAll.1 with
    | error fault => rfl
    | ok bytes => rfl

theorem readLineFrom_held (hooks : List Hook) (closed : Bool) (limit : Nat) (line : ByteArray)
    (body : Codec.Body) :
    readLineFrom limit (held hooks closed body) line
      =
    ((drawLineFrom Codec.Body.draw closed limit line body).1,
      held hooks closed (drawLineFrom Codec.Body.draw closed limit line body).2) := by
  induction limit generalizing line body with
  | zero => rfl
  | succ limit ih =>
    unfold readLineFrom drawLineFrom
    rw [read_held]
    rcases body.draw closed (some 1) with ⟨result, body⟩
    cases result with
    | error failure => rfl
    | ok bytes =>
      dsimp only
      split
      · rfl
      · split
        · rfl
        · rw [ih]

theorem closeLayers_open (hooks : List Hook) (r : Reader) :
    closeLayers (hooks.map (⟨·, false⟩)) r
      =
    (raised hooks, hooks.map (⟨·, true⟩),
      { r with closed := true, rawClosed := true, ran := r.ran ++ runs hooks }) := by
  induction hooks with
  | nil =>
    unfold closeLayers runs
    simp only [List.map_nil, List.reverse_nil, List.append_nil]
    rfl
  | cons hook hooks ih =>
    rw [List.map_cons, closeLayers_of_open rfl ih, raised_cons, runs_cons, List.append_assoc]
    rfl

theorem close_held (hooks : List Hook) (closed : Bool) (body : Codec.Body) :
    ((held hooks closed body).close.1.map fun _ => none)
        = ended (if closed then none else raised hooks)
      ∧ (held hooks closed body).close.2 = held hooks true body := by
  cases closed with
  | true =>
    -- What is closed is left as it is, also if no layer is around it.
    cases hooks with
    | nil => exact ⟨rfl, rfl⟩
    | cons hook hooks => exact ⟨rfl, rfl⟩
  | false =>
    have hlayers := closeLayers_open hooks (held hooks false body)
    unfold close
    unfold held at hlayers ⊢
    dsimp only at hlayers ⊢
    rw [hlayers, if_neg Bool.false_ne_true]
    cases raised hooks with
    | none => exact ⟨rfl, rfl⟩
    | some failure => exact ⟨rfl, rfl⟩

theorem isClosed_held (hooks : List Hook) (closed : Bool) (body : Codec.Body) :
    (held hooks closed body).isClosed = closed := by
  cases hooks <;> rfl

def openCount (hooks : List Hook) (closed : Bool) : Nat :=
  if closed then 0 else hooks.length + 1

theorem openCount_le (hooks : List Hook) (closed : Bool) :
    decide (openCount hooks closed ≤ hooks.length) = closed := by
  cases closed with
  | true => exact decide_eq_true (Nat.zero_le _)
  | false => exact decide_eq_false (Nat.not_succ_le_self _)

def Matches (scheme : Codec.Scheme) (hooks : List Hook) (closed : Bool) (body : Codec.Body)
    (step : Step) (outcome : Except Failure Delivery × Reader) : Prop :=
  ∃ closed' body', outcome.2 = held hooks closed' body'
    ∧ (step.run Codec.Body.draw (.withOpen scheme hooks (openCount hooks closed) body)).result
      = outcome.1.map Delivery.given?
    ∧ (step.run Codec.Body.draw (.withOpen scheme hooks (openCount hooks closed) body)).handle
      = .withOpen scheme hooks (openCount hooks closed') body'

theorem given?_map {result : Except Failure ByteArray} {f : ByteArray → Delivery}
    (h : ∀ bytes, (f bytes).given? = some (f bytes)) :
    (result.map f).map Delivery.given? = (result.map f).map some := by
  cases result with
  | error failure => rfl
  | ok bytes => exact congrArg Except.ok (h bytes)

theorem given?_drawn (closed : Bool) (reading : Reading) (body : Codec.Body) :
    (drawn Codec.Body.draw closed reading body).1.map Delivery.given?
      =
    (drawn Codec.Body.draw closed reading body).1.map some := by
  cases reading with
  | some size => exact given?_map fun _ => rfl
  | into buffer => exact given?_map fun _ => rfl
  | line limit => exact given?_map fun _ => rfl
  | all => exact given?_map fun _ => rfl

theorem matches_read (scheme : Codec.Scheme) (reading : Reading)
    {outcome : Except Failure Delivery × Reader}
    (h : outcome = ((drawn Codec.Body.draw closed reading body).1,
      held hooks closed (drawn Codec.Body.draw closed reading body).2)) :
    Matches scheme hooks closed body (.read 0 reading) outcome := by
  have hread := Op.perform_read Codec.Body.draw scheme hooks 0 (openCount hooks closed) body reading
  rw [openCount_le] at hread
  refine ⟨closed, (drawn Codec.Body.draw closed reading body).2, by rw [h], ?_, ?_⟩
  · rw [h, given?_drawn]
    exact congrArg Prod.fst hread
  · exact congrArg Prod.snd hread

theorem perform_close_held (scheme : Codec.Scheme) (hooks : List Hook) (closed : Bool)
    (body : Codec.Body) :
    (Op.close 0).perform Codec.Body.draw (.withOpen scheme hooks (openCount hooks closed) body)
      =
    ((held hooks closed body).close.1.map fun _ => none,
      .withOpen scheme hooks (openCount hooks true) body) := by
  rw [Op.perform_close, (close_held hooks closed body).1, List.drop_zero, Nat.zero_min,
    Nat.min_zero]
  cases closed with
  | true => rfl
  | false =>
    unfold openCount
    rw [if_neg Bool.false_ne_true, if_neg Bool.false_ne_true,
      List.take_of_length_le (Nat.le_succ _)]
    rfl

theorem matches_close (scheme : Codec.Scheme) (hooks : List Hook) (closed : Bool)
    (body : Codec.Body) :
    Matches scheme hooks closed body (.close 0) (Use.close.perform (held hooks closed body)) := by
  have hclose := perform_close_held scheme hooks closed body
  refine ⟨true, body, (close_held hooks closed body).2, ?_, congrArg Prod.snd hclose⟩
  refine (congrArg Prod.fst hclose).trans ?_
  dsimp only [Use.perform]
  cases (held hooks closed body).close.1 with
  | error failure => rfl
  | ok done => rfl

theorem readAndClose_closed (hooks : List Hook) (body : Codec.Body) :
    (held hooks true body).readAndClose
      =
    (.error (closedFailure .plain), held hooks true body) := by
  unfold readAndClose
  rw [isClosed_held, if_pos rfl]

theorem readAndClose_open (hooks : List Hook) (body : Codec.Body) :
    (held hooks false body).readAndClose
      =
    match (held hooks false (body.draw false none).2).close with
    | (.error failure, r) => (.error failure, r)
    | (.ok _, r) => ((body.draw false none).1, r) := by
  unfold readAndClose
  rw [isClosed_held, if_neg Bool.false_ne_true]
  let finish (read : Except Failure ByteArray × Reader) : Except Failure ByteArray × Reader :=
    match read.2.close with
    | (.error failure, r) => (.error failure, r)
    | (.ok _, r) => (read.1, r)
  exact congrArg finish (readAll_held hooks false body)

theorem runBlock_readAll (scheme : Codec.Scheme) (hooks : List Hook) (body : Codec.Body) :
    (Step.runBlock Codec.Body.draw [.read 0 .all] none
        (.withOpen scheme hooks (openCount hooks false) body)).result
        = ((body.draw false none).1.map Delivery.bytes).map Delivery.given?
      ∧ (Step.runBlock Codec.Body.draw [.read 0 .all] none
          (.withOpen scheme hooks (openCount hooks false) body)).handle
        = .withOpen scheme hooks (openCount hooks false) (body.draw false none).2 := by
  obtain ⟨hbrought, hleft⟩ := Step.runBlock_single Codec.Body.draw (.read 0 .all) none
    (.withOpen scheme hooks (openCount hooks false) body)
  have hread := Op.perform_read Codec.Body.draw scheme hooks 0 (openCount hooks false) body .all
  rw [openCount_le] at hread
  refine ⟨hbrought.trans ?_, hleft.trans (congrArg Prod.snd hread)⟩
  exact (congrArg Prod.fst hread).trans (given?_drawn false .all body).symm

theorem matches_readAndClose (scheme : Codec.Scheme) (hooks : List Hook) (closed : Bool)
    (body : Codec.Body) :
    Matches scheme hooks closed body (.within 0 [.read 0 .all])
      (Use.readAndClose.perform (held hooks closed body)) := by
  have henter := Op.perform_enter Codec.Body.draw scheme hooks 0 (openCount hooks closed) body
  rw [Nat.zero_min] at henter
  dsimp only [Use.perform]
  cases closed with
  | true =>
    obtain ⟨hresult, hhandle⟩ := Step.run_within_of_closed henter [.read 0 .all]
    rw [readAndClose_closed]
    exact ⟨true, body, rfl, hresult, hhandle⟩
  | false =>
    obtain ⟨hresult, hhandle⟩ := Step.run_within_of_open henter [.read 0 .all]
    obtain ⟨hbrought, hleft⟩ := runBlock_readAll scheme hooks body
    have hclose := perform_close_held scheme hooks false (body.draw false none).2
    have hended := (close_held hooks false (body.draw false none).2).2
    rw [hleft, hclose, hbrought] at hresult
    rw [hleft, hclose] at hhandle
    rw [readAndClose_open]
    rcases hshut : (held hooks false (body.draw false none).2).close with ⟨ending, r⟩
    rw [hshut] at hresult hended
    -- A failure to close takes the place of what was read.
    cases ending with
    | error failure => exact ⟨true, (body.draw false none).2, hended, hresult, hhandle⟩
    | ok done => exact ⟨true, (body.draw false none).2, hended, hresult, hhandle⟩

theorem matches_perform (scheme : Codec.Scheme) (hooks : List Hook) (closed : Bool)
    (body : Codec.Body) (use : Use) :
    Matches scheme hooks closed body (use.step (held hooks closed body))
      (use.perform (held hooks closed body)) := by
  cases use with
  | read size =>
    apply matches_read
    dsimp only [Use.perform]
    rw [read_held]
    rfl
  | readInto buffer =>
    apply matches_read
    dsimp only [Use.perform, readInto]
    rw [read_held]
    unfold drawn
    dsimp only
    cases (body.draw closed (some buffer.size)).1 with
    | error failure => rfl
    | ok bytes => rfl
  | readLine =>
    apply matches_read
    dsimp only [Use.perform, readLine]
    rw [readLineFrom_held]
    rfl
  | readAll =>
    apply matches_read
    dsimp only [Use.perform]
    rw [readAll_held]
    rfl
  | close => exact matches_close scheme hooks closed body
  | readAndClose => exact matches_readAndClose scheme hooks closed body

theorem matches_useEach (scheme : Codec.Scheme) (hooks : List Hook) (uses : List Use)
    (closed : Bool) (body : Codec.Body) :
    ∃ closed' body', ((held hooks closed body).useEach uses).2 = held hooks closed' body'
      ∧ (Step.runEach Codec.Body.draw ((held hooks closed body).steps uses)
          (.withOpen scheme hooks (openCount hooks closed) body)).result
        = ((held hooks closed body).useEach uses).1.map (·.map Delivery.given?)
      ∧ (Step.runEach Codec.Body.draw ((held hooks closed body).steps uses)
          (.withOpen scheme hooks (openCount hooks closed) body)).handle
        = .withOpen scheme hooks (openCount hooks closed') body' := by
  induction uses generalizing closed body with
  | nil => exact ⟨closed, body, rfl, rfl, rfl⟩
  | cons use uses ih =>
    obtain ⟨closed₁, body₁, hheld, hresult, hhandle⟩ :=
      matches_perform scheme hooks closed body use
    obtain ⟨closed', body', hheld', hresults, hhandle'⟩ := ih closed₁ body₁
    refine ⟨closed', body', ?_, ?_, ?_⟩
    · unfold useEach
      dsimp only
      rw [hheld, hheld']
    · unfold useEach steps Step.runEach
      dsimp only
      rw [hresult, hhandle, hheld, hresults, List.map_cons]
    · unfold steps Step.runEach
      dsimp only
      rw [hhandle, hheld, hhandle']

/-- Whether a nest shows what a reader shows: its body, what is closed, and the hooks that ran. -/
structure Mirrors (h : Handle Codec.Body) (r : Reader) : Prop where
  body : h.shared.content = r.body
  layers : h.nest.flags = r.layers.map (·.closed) ++ [r.closed]
  raw : h.shared.rawClosed = r.rawClosed
  ran : h.shared.ran = r.ran

theorem mirrors_held (scheme : Codec.Scheme) (hooks : List Hook) (closed : Bool)
    (body : Codec.Body) :
    Mirrors (.withOpen scheme hooks (openCount hooks closed) body) (held hooks closed body) := by
  have hlayers : (held hooks closed body).layers.map (·.closed) ++ [(held hooks closed body).closed]
      = List.replicate (hooks.length + 1) closed := by
    unfold held
    dsimp only
    rw [List.map_map, List.replicate_succ']
    congr 1
    exact List.map_const'
  cases closed with
  | true =>
    refine ⟨rfl, ?_, rfl, rfl⟩
    rw [hlayers]
    exact flags_shut_zero scheme hooks
  | false =>
    have hopen : Handle.withOpen scheme hooks (openCount hooks false) body
        = .opened scheme hooks body := Handle.withOpen_all scheme hooks body
    refine ⟨rfl, ?_, ?_, ?_⟩
    · rw [hlayers]
      exact flags_shut_all scheme hooks
    · rw [hopen]
      rfl
    · rw [hopen]
      rfl

end Reader

end Depot
