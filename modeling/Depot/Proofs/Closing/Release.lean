import Depot.Proofs.Closing.Bodies

/-!
This module contains the proof that closing a reader releases everything exactly once, whatever its
stream brings, whichever hooks fail and whatever else is done with it.
-/

namespace Depot.Nest

variable {β : Type}

namespace Op

def leaves (n : Nat) (op : Op) (count : Nat) : Nat :=
  match op with
  | read _ _ | enter _ => count
  | close depth => min count (min depth n)

def leave (n : Nat) (ops : List Op) (count : Nat) : Nat :=
  ops.foldl (fun count op => op.leaves n count) count

theorem leaves_le (n : Nat) (op : Op) (count : Nat) : op.leaves n count ≤ count := by
  cases op with
  | read depth reading => exact Nat.le_refl count
  | enter depth => exact Nat.le_refl count
  | close depth => exact Nat.min_le_left count _

theorem leaves_close_zero (n count : Nat) : (close 0).leaves n count = 0 := by
  dsimp only [leaves]
  rw [Nat.zero_min, Nat.min_zero]

theorem leave_le (n : Nat) (ops : List Op) (count : Nat) : leave n ops count ≤ count := by
  induction ops generalizing count with
  | nil => exact Nat.le_refl count
  | cons op ops ih => exact Nat.le_trans (ih _) (op.leaves_le n count)

theorem leave_of_close {n : Nat} {ops : List Op} (h : close 0 ∈ ops) (count : Nat) :
    leave n ops count = 0 := by
  induction ops generalizing count with
  | nil => cases h
  | cons op ops ih =>
    rcases List.mem_cons.1 h with rfl | h
    · have hle : leave n ops ((close 0).leaves n count) ≤ 0 := by
        rw [leaves_close_zero]
        exact leave_le n ops 0
      exact Nat.le_zero.1 hle
    · exact ih h _

theorem leave_of_no_close {n : Nat} {ops : List Op} (h : ∀ depth, close depth ∉ ops) (count : Nat) :
    leave n ops count = count := by
  induction ops generalizing count with
  | nil => rfl
  | cons op ops ih =>
    have hops := ih (fun depth hmem => h depth (List.mem_cons_of_mem op hmem)) count
    cases op with
    | read depth reading => exact hops
    | enter depth => exact hops
    | close depth => exact absurd List.mem_cons_self (h depth)

end Op

namespace Handle

def after (draw : Draw β) (ops : List Op) (h : Handle β) : Handle β :=
  ops.foldl (fun h op => (op.perform draw h).2) h

end Handle

def ops (moments : List (Moment β)) : List Op :=
  moments.map (·.op)

theorem Chain.after_eq {draw : Draw β} {h h' : Handle β} {moments : List (Moment β)}
    (hchain : Chain draw h moments h') : h.after draw (ops moments) = h' := by
  induction hchain with
  | nil h => rfl
  | cons hop _ ih =>
    unfold ops Handle.after at ih ⊢
    rw [List.map_cons, List.foldl_cons, hop]
    exact ih

/--
Whether a reader in layers, of which `count` are open, holds the same content as one without, which
is closed if anything has been closed.
-/
def Alongside (scheme : Codec.Scheme) (hooks : List Hook) (count : Nat) (h bare : Handle β) :
    Prop :=
  ∃ count' content, h = .withOpen scheme hooks count content
    ∧ bare = .withOpen scheme [] count' content ∧ (count' ≤ 0 ↔ count ≤ hooks.length)

namespace Alongside

variable {scheme : Codec.Scheme} {hooks : List Hook} {count : Nat} {h bare : Handle β}

theorem opened (scheme : Codec.Scheme) (hooks : List Hook) (content : β) :
    Alongside scheme hooks (hooks.length + 1) (.opened scheme hooks content)
      (.opened scheme [] content) := by
  refine ⟨1, content, (Handle.withOpen_all scheme hooks content).symm,
    (Handle.withOpen_all scheme [] content).symm, ?_⟩
  omega

theorem perform (halong : Alongside scheme hooks count h bare) (draw : Draw β) (op : Op) :
    Alongside scheme hooks (op.leaves hooks.length count) (op.perform draw h).2
      (op.perform draw bare).2 := by
  obtain ⟨count', content, rfl, rfl, hcount⟩ := halong
  cases op with
  | read depth reading =>
    rw [Op.perform_read, Op.perform_read, List.length_nil, decide_eq_decide.2 hcount]
    exact ⟨count', _, rfl, rfl, hcount⟩
  | enter depth =>
    rw [Op.perform_enter, Op.perform_enter]
    exact ⟨count', content, rfl, rfl, hcount⟩
  | close depth =>
    rw [Op.perform_close, Op.perform_close]
    refine ⟨_, content, rfl, rfl, ?_⟩
    dsimp only [Op.leaves, List.length_nil]
    omega

theorem close_outermost (halong : Alongside scheme hooks count h bare) (draw : Draw β) :
    Alongside scheme hooks 0 ((Op.close 0).perform draw h).2
      ((Op.close 0).perform draw bare).2 := by
  have hclosed := halong.perform draw (.close 0)
  rw [Op.leaves_close_zero] at hclosed
  exact hclosed

theorem after (halong : Alongside scheme hooks count h bare) (draw : Draw β) (ops : List Op) :
    Alongside scheme hooks (Op.leave hooks.length ops count) (h.after draw ops)
      (bare.after draw ops) := by
  -- The readers are kept alongside by every operation.
  induction ops generalizing count h bare with
  | nil => exact halong
  | cons op ops ih => exact ih (halong.perform draw op)

theorem of_chain {h' : Handle β} {draw : Draw β} {moments : List (Moment β)}
    (halong : Alongside scheme hooks count h bare) (hchain : Chain draw h moments h') :
    ∃ count' bare', count' ≤ count ∧ Alongside scheme hooks count' h' bare' := by
  have hafter := halong.after draw (ops moments)
  rw [hchain.after_eq] at hafter
  exact ⟨_, _, Op.leave_le _ _ _, hafter⟩

theorem read_eq (halong : Alongside scheme hooks count h bare) (draw : Draw β) (depth : Nat)
    (reading : Reading) :
    ((Op.read depth reading).perform draw h).1 = ((Op.read depth reading).perform draw bare).1 := by
  obtain ⟨count', content, rfl, rfl, hcount⟩ := halong
  rw [Op.perform_read, Op.perform_read, List.length_nil, decide_eq_decide.2 hcount]

end Alongside

/--
Whether all of a reader is released: its layers and its stream are closed, the raw stream was closed
once, and after that each hook ran once, the innermost first.
-/
structure Handle.Released (scheme : Codec.Scheme) (hooks : List Hook) (h : Handle β) : Prop where
  layers : h.nest.flags = List.replicate (hooks.length + 1) true
  stream : h.shared.streamClosed scheme = true
  raw : h.shared.rawClosings = 1
  ran : h.shared.ran = hooks.reverse.map (⟨·, true⟩)

theorem Handle.released_withOpen_zero (scheme : Codec.Scheme) (hooks : List Hook) (content : β) :
    (Handle.withOpen scheme hooks 0 content).Released scheme hooks := by
  refine ⟨flags_shut_zero scheme hooks, ?_, ?_, ?_⟩
  · exact (streamClosed_after scheme hooks 0 content).trans (decide_eq_true (Nat.zero_le _))
  · change (if 0 ≤ hooks.length then 1 else 0) = 1
    rw [if_pos (Nat.zero_le _)]
  · unfold Handle.withOpen Shared.after
    rw [List.drop_zero]
    rfl

/-- What holds of a moment in the use of a reader, after those before it. -/
structure Orderly (draw : Draw β) (scheme : Codec.Scheme) (hooks : List Hook) (content : β)
    (before : List (Moment β)) (m : Moment β) : Prop where
  /-- It leaves open what lies outside of all layers that have been closed, and no more. -/
  state : ∃ content', m.handle = .withOpen scheme hooks
    (Op.leave hooks.length (ops (before ++ [m])) (hooks.length + 1)) content'
  released : .close 0 ∈ ops (before ++ [m]) → m.handle.Released scheme hooks
  first : m.op = .close 0 → (∀ depth, .close depth ∉ ops before) →
    m.result = ended (hooks.findSome? (·.failure))
  again : ∀ depth, m.op = .close depth → .close 0 ∈ ops before →
    m.result = .ok none ∧ m.handle = (Handle.opened scheme hooks content).after draw (ops before)
  closes : ∀ depth, m.op = .close depth → m.result = ended (raised
    ((hooks.take (Op.leave hooks.length (ops before) (hooks.length + 1))).drop depth))
  reads : ∀ depth reading, m.op = .read depth reading → m.result
    = (m.op.perform draw ((Handle.opened scheme [] content).after draw (ops before))).1

theorem orderly_of_chain {draw : Draw β} {scheme : Codec.Scheme} {hooks : List Hook} {content : β}
    {before after : List (Moment β)} {m : Moment β} {last : Handle β}
    (hchain : Chain draw (.opened scheme hooks content) (before ++ m :: after) last) :
    Orderly draw scheme hooks content before m := by
  obtain ⟨h, hbefore, hop⟩ := hchain.split
  have hpast := (Alongside.opened scheme hooks content).after draw (ops before)
  rw [hbefore.after_eq] at hpast
  have hresult : m.result = (m.op.perform draw h).1 := by rw [hop]
  have hhandle : m.handle = (m.op.perform draw h).2 := by rw [hop]
  have hleave : Op.leave hooks.length (ops (before ++ [m])) (hooks.length + 1)
      = m.op.leaves hooks.length (Op.leave hooks.length (ops before) (hooks.length + 1)) := by
    unfold ops Op.leave
    rw [List.map_append, List.foldl_append]
    rfl
  have hstate : ∃ content', m.handle = .withOpen scheme hooks
      (Op.leave hooks.length (ops (before ++ [m])) (hooks.length + 1)) content' := by
    obtain ⟨count', content', hpresent, -, -⟩ := hpast.perform draw m.op
    rw [hleave, hhandle]
    exact ⟨content', hpresent⟩
  have hcloses : ∀ depth, m.op = .close depth → m.result = ended (raised
      ((hooks.take (Op.leave hooks.length (ops before) (hooks.length + 1))).drop depth)) := by
    intro depth hclose
    obtain ⟨count', content', rfl, -, -⟩ := hpast
    rw [hresult, hclose, Op.perform_close]
  refine ⟨hstate, ?_, ?_, ?_, hcloses, ?_⟩
  · intro hmem
    obtain ⟨content', heq⟩ := hstate
    rw [heq, Op.leave_of_close hmem]
    exact Handle.released_withOpen_zero scheme hooks content'
  · intro hclose hnone
    rw [hcloses 0 hclose, Op.leave_of_no_close hnone, List.drop_zero,
      List.take_of_length_le (Nat.le_succ _)]
    rfl
  · intro depth hclose hmem
    obtain ⟨count', content', heq, -, -⟩ := hpast
    rw [Op.leave_of_close hmem] at heq
    refine ⟨?_, ?_⟩
    · rw [hcloses depth hclose, Op.leave_of_close hmem, List.take_zero, List.drop_nil]
      rfl
    · rw [hbefore.after_eq, hhandle, hclose, heq, Op.perform_close, Nat.zero_min]
  · intro depth reading hread
    rw [hresult, hread]
    exact hpast.read_eq draw depth reading

namespace Step

def Closes : Step → Prop
  | read _ _ => False
  | close depth | within depth _ => depth = 0

variable {scheme : Codec.Scheme} {hooks : List Hook} {count : Nat} {h bare : Handle β}

theorem shut_run (draw : Draw β) (halong : Alongside scheme hooks count h bare) {step : Step}
    (hcloses : step.Closes) : ∃ bare', Alongside scheme hooks 0 (step.run draw h).handle bare' := by
  cases step with
  | read depth reading => cases hcloses
  | close depth =>
    obtain rfl : depth = 0 := hcloses
    exact ⟨_, halong.close_outermost draw⟩
  | within depth block =>
    obtain rfl : depth = 0 := hcloses
    by_cases hcount : count = 0
    · -- The block is not entered, but the layer is closed.
      subst hcount
      obtain ⟨count', bare', hle, hclosed⟩ := halong.of_chain (chain_run draw (.within 0 block) h)
      obtain rfl := Nat.le_zero.1 hle
      exact ⟨bare', hclosed⟩
    · have henter : (Op.enter 0).perform draw h = (.ok none, h) := by
        obtain ⟨count', content, rfl, -, -⟩ := halong
        rw [Op.perform_enter, Nat.zero_min, if_neg fun hle => hcount (Nat.le_zero.1 hle)]
      obtain ⟨count', bare', -, hinner⟩ := halong.of_chain (chain_runBlock draw block none h)
      rw [(run_within_of_open henter block).2]
      exact ⟨_, hinner.close_outermost draw⟩

theorem shut_runEach (draw : Draw β) (halong : Alongside scheme hooks count h bare)
    {steps : List Step} (hcloses : ∃ step ∈ steps, step.Closes) :
    ∃ bare', Alongside scheme hooks 0 (runEach draw steps h).handle bare' := by
  induction steps generalizing count h bare with
  | nil =>
    obtain ⟨step, hmem, -⟩ := hcloses
    cases hmem
  | cons first steps ih =>
    obtain ⟨step, hmem, hstep⟩ := hcloses
    rcases List.mem_cons.1 hmem with rfl | hmem
    · obtain ⟨bare', hclosed⟩ := shut_run draw halong hstep
      obtain ⟨count', bare'', hle, hrest⟩ := hclosed.of_chain (chain_runEach draw steps _)
      obtain rfl := Nat.le_zero.1 hle
      exact ⟨bare'', hrest⟩
    · obtain ⟨count', bare', -, hfirst⟩ := halong.of_chain (chain_run draw first h)
      exact ih hfirst ⟨step, hmem, hstep⟩

end Step

/--
Closing a reader releases everything exactly once, whatever its stream brings, whichever hooks fail
and whatever is done with its layers. The readers of bodies, in particular, come to the same.
-/
theorem closing_releases_once (scheme : Codec.Scheme) (hooks : List Hook) :
    (∀ (β : Type) (draw : Draw β) (content : β) (steps : List Step),
      (∀ before m after,
          (Step.runEach draw steps (.opened scheme hooks content)).moments = before ++ m :: after →
          Orderly draw scheme hooks content before m)
        ∧ ((∃ step ∈ steps, step.Closes) →
          (Step.runEach draw steps (.opened scheme hooks content)).handle.Released scheme hooks))
      ∧ ∀ (raw : ByteArray) (uses : List Use),
        let r := hooks.foldr (fun hook r => r.wrap hook) (Reader.ofBytes scheme raw)
        let run := Step.runEach Codec.Body.draw (r.steps uses)
          (.opened scheme hooks (.ofBytes scheme raw))
        run.result = (r.useEach uses).1.map (·.map Delivery.given?)
          ∧ Reader.Mirrors run.handle (r.useEach uses).2 := by
  refine ⟨fun β draw content steps => ⟨?_, ?_⟩, ?_⟩
  · intro before m after hmoments
    have hchain := Step.chain_runEach draw steps (.opened scheme hooks content)
    rw [hmoments] at hchain
    exact orderly_of_chain hchain
  · intro hcloses
    obtain ⟨bare, count', content', hclosed, -, -⟩ :=
      Step.shut_runEach draw (.opened scheme hooks content) hcloses
    rw [hclosed]
    exact Handle.released_withOpen_zero scheme hooks content'
  · intro raw uses r run
    obtain ⟨closed, body, hheld, hresult, hhandle⟩ :=
      Reader.matches_useEach scheme hooks uses false (.ofBytes scheme raw)
    have hr : r = Reader.held hooks false (.ofBytes scheme raw) :=
      Reader.foldr_wrap hooks scheme raw
    have hopened : Handle.withOpen scheme hooks (Reader.openCount hooks false)
        (Codec.Body.ofBytes scheme raw) = .opened scheme hooks (.ofBytes scheme raw) :=
      Handle.withOpen_all scheme hooks _
    rw [hopened, ← hr] at hresult hhandle
    rw [← hr] at hheld
    refine ⟨hresult, ?_⟩
    rw [hheld]
    exact hhandle ▸ Reader.mirrors_held scheme hooks closed body

def brokenDraw : Draw Unit :=
  fun _ _ content => (.error (Reader.closedFailure .plain), content)

def crossHooks : List Hook :=
  [{ failure := some (Reader.closedFailure .zstd) }, {}]

theorem closing_releases_once_broken :
    (Step.within 0 [.read 0 .all]).Closes
      ∧ (Step.runEach brokenDraw [.within 0 [.read 0 .all], .close 0]
          (.opened .gzip crossHooks ())).result
        = [.error (Reader.closedFailure .zstd), .ok none]
      ∧ (Step.runEach brokenDraw [.within 0 [.read 0 .all], .close 0]
          (.opened .gzip crossHooks ())).handle.Released .gzip crossHooks := by
  have hcloses : (Step.within 0 [.read 0 .all]).Closes := rfl
  refine ⟨hcloses, rfl, ?_⟩
  exact ((closing_releases_once .gzip crossHooks).1 Unit brokenDraw () _).2
    ⟨_, List.mem_cons_self, hcloses⟩

end Depot.Nest
