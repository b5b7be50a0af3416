import Depot.Proofs.Closing.Nest
import Depot.Proofs.Tracing.Layers

/-!
This module contains what can be done with a nest, on any of its layers: reads, closes, and blocks
that close a layer when they are left. Whatever is done comes to operations that follow one another.
-/

namespace Depot.Nest

variable {β : Type}

inductive Reading where
  | some (size : Nat)
  | into (buffer : ByteArray)
  | line (limit : Nat)
  | all

structure Handle (β : Type) where
  nest : Nest
  shared : Shared β

def readLineFrom (draw : Draw β) (nest : Nest) : (limit : Nat) → (line : ByteArray) → Shared β →
    Except Failure ByteArray × Shared β
  | 0, line, s => (.ok line, s)
  | limit + 1, line, s =>
    match nest.read draw (some 1) s with
    | (.error failure, s) => (.error failure, s)
    | (.ok bytes, s) =>
      if bytes.size = 0 then (.ok line, s)
      else
        let line := line ++ bytes
        if Codec.byteAt bytes 0 = 0x0a then (.ok line, s) else readLineFrom draw nest limit line s

def serve (draw : Draw β) (reading : Reading) (nest : Nest) (s : Shared β) :
    Except Failure Delivery × Shared β :=
  match reading with
  | .some size =>
    let (result, s) := nest.read draw (some size) s
    (result.map .bytes, s)
  | .into buffer =>
    let (result, s) := nest.read draw (some buffer.size) s
    (result.map fun bytes =>
      .filled bytes.size (bytes ++ buffer.extract bytes.size buffer.size), s)
  | .line limit =>
    let (result, s) := readLineFrom draw nest limit .empty s
    (result.map .bytes, s)
  | .all =>
    let (result, s) := nest.read draw none s
    (result.map .bytes, s)

inductive Op where
  | read (depth : Nat) (reading : Reading)
  | enter (depth : Nat)
  | close (depth : Nat)

def ended : Option Failure → Except Failure (Option Delivery)
  | none => .ok none
  | some failure => .error failure

def Op.perform (draw : Draw β) (op : Op) (h : Handle β) :
    Except Failure (Option Delivery) × Handle β :=
  match op with
  | read depth reading =>
    let (result, shared) := (h.nest.inside depth).serve draw reading h.shared
    (result.map some, { h with shared })
  | enter depth =>
    (if (h.nest.inside depth).isClosed then .error (Reader.closedFailure .plain) else .ok none, h)
  | close depth =>
    let (failure, nest, shared) := h.nest.closeAt depth h.shared
    (ended failure, ⟨nest, shared⟩)

/-- An operation that was performed: what it brought, and what it left. -/
structure Moment (β : Type) where
  op : Op
  result : Except Failure (Option Delivery)
  handle : Handle β

inductive Chain (draw : Draw β) : Handle β → List (Moment β) → Handle β → Prop where
  | nil (h : Handle β) : Chain draw h [] h
  | cons {h h' h'' : Handle β} {op : Op} {result : Except Failure (Option Delivery)}
      {moments : List (Moment β)} (hop : op.perform draw h = (result, h'))
      (hrest : Chain draw h' moments h'') : Chain draw h (⟨op, result, h'⟩ :: moments) h''

/-- A step in the use of a nest. A block is left at its first failure, and closes its layer then. -/
inductive Step where
  | read (depth : Nat) (reading : Reading)
  | close (depth : Nat)
  | within (depth : Nat) (block : List Step)

structure Run (α β : Type) where
  result : α
  moments : List (Moment β)
  handle : Handle β

namespace Op

def run (draw : Draw β) (op : Op) (h : Handle β) : Run (Except Failure (Option Delivery)) β :=
  ⟨(op.perform draw h).1, [⟨op, (op.perform draw h).1, (op.perform draw h).2⟩],
    (op.perform draw h).2⟩

end Op

namespace Step

mutual

def run (draw : Draw β) (step : Step) (h : Handle β) :
    Run (Except Failure (Option Delivery)) β :=
  match step with
  | read depth reading => (Op.read depth reading).run draw h
  | close depth => (Op.close depth).run draw h
  | within depth block =>
    let entered := (Op.enter depth).run draw h
    match entered.result with
    | .error _ => entered
    | .ok _ =>
      let inner := runBlock draw block none entered.handle
      let left := (Op.close depth).run draw inner.handle
      ⟨match left.result with
        | .error failure => .error failure
        | .ok _ => inner.result,
        entered.moments ++ inner.moments ++ left.moments, left.handle⟩

/-- Performs steps up to the first that fails. They come to what the last one brings. -/
def runBlock (draw : Draw β) (block : List Step) (last : Option Delivery) (h : Handle β) :
    Run (Except Failure (Option Delivery)) β :=
  match block with
  | [] => ⟨.ok last, [], h⟩
  | step :: block =>
    let first := run draw step h
    match first.result with
    | .error failure => ⟨.error failure, first.moments, first.handle⟩
    | .ok brought =>
      let rest := runBlock draw block brought first.handle
      ⟨rest.result, first.moments ++ rest.moments, rest.handle⟩

end

/-- Performs one step after the other, whether they fail or not. -/
def runEach (draw : Draw β) : List Step → Handle β → Run (List (Except Failure (Option Delivery))) β
  | [], h => ⟨[], [], h⟩
  | step :: steps, h =>
    let first := run draw step h
    let rest := runEach draw steps first.handle
    ⟨first.result :: rest.result, first.moments ++ rest.moments, rest.handle⟩

end Step

namespace Chain

variable {draw : Draw β} {h h' h'' : Handle β} {before after : List (Moment β)} {m : Moment β}

theorem append (hbefore : Chain draw h before h') (hafter : Chain draw h' after h'') :
    Chain draw h (before ++ after) h'' := by
  induction hbefore with
  | nil h => exact hafter
  | cons hop _ ih => exact .cons hop (ih hafter)

theorem of_op (draw : Draw β) (op : Op) (h : Handle β) :
    Chain draw h (op.run draw h).moments (op.run draw h).handle :=
  .cons rfl (.nil _)

theorem split (hchain : Chain draw h (before ++ m :: after) h'') :
    ∃ h', Chain draw h before h' ∧ m.op.perform draw h' = (m.result, m.handle) := by
  induction before generalizing h with
  | nil =>
    cases hchain with
    | cons hop hrest => exact ⟨h, .nil h, hop⟩
  | cons first before ih =>
    cases hchain with
    | cons hop hrest =>
      obtain ⟨h', hbefore, hm⟩ := ih hrest
      exact ⟨h', .cons hop hbefore, hm⟩

end Chain

namespace Step

theorem runBlock_single (draw : Draw β) (step : Step) (last : Option Delivery)
    (h : Handle β) :
    (runBlock draw [step] last h).result = (run draw step h).result
      ∧ (runBlock draw [step] last h).handle = (run draw step h).handle := by
  unfold runBlock
  dsimp only
  split
  next failure hfailed => exact ⟨hfailed.symm, rfl⟩
  next brought hbrought =>
    unfold runBlock
    exact ⟨hbrought.symm, rfl⟩

theorem run_within_of_closed {draw : Draw β} {depth : Nat} {h : Handle β}
    {failure : Failure} (henter : (Op.enter depth).perform draw h = (.error failure, h))
    (block : List Step) :
    (run draw (within depth block) h).result = .error failure
      ∧ (run draw (within depth block) h).handle = h := by
  unfold run Op.run
  dsimp only
  rw [henter]
  exact ⟨rfl, rfl⟩

theorem run_within_of_open {draw : Draw β} {depth : Nat} {h : Handle β}
    (henter : (Op.enter depth).perform draw h = (.ok none, h)) (block : List Step) :
    (run draw (within depth block) h).result
        = (match ((Op.close depth).perform draw (runBlock draw block none h).handle).1 with
          | .error failure => .error failure
          | .ok _ => (runBlock draw block none h).result)
      ∧ (run draw (within depth block) h).handle
        = ((Op.close depth).perform draw (runBlock draw block none h).handle).2 := by
  unfold run Op.run
  dsimp only
  rw [henter]
  exact ⟨rfl, rfl⟩

mutual

theorem chain_run (draw : Draw β) (step : Step) (h : Handle β) :
    Chain draw h (step.run draw h).moments (step.run draw h).handle := by
  cases step with
  | read depth reading =>
    unfold run
    exact .of_op draw _ h
  | close depth =>
    unfold run
    exact .of_op draw _ h
  | within depth block =>
    have hentered := Chain.of_op draw (.enter depth) h
    unfold run
    dsimp only
    split
    · exact hentered
    · have hinner := chain_runBlock draw block none ((Op.enter depth).run draw h).handle
      exact (hentered.append hinner).append (.of_op draw _ _)

theorem chain_runBlock (draw : Draw β) (block : List Step) (last : Option Delivery) (h : Handle β) :
    Chain draw h (runBlock draw block last h).moments (runBlock draw block last h).handle := by
  cases block with
  | nil =>
    unfold runBlock
    exact .nil h
  | cons step block =>
    have hfirst := chain_run draw step h
    unfold runBlock
    dsimp only
    split
    · exact hfirst
    · exact hfirst.append (chain_runBlock draw block _ _)

end

theorem chain_runEach (draw : Draw β) (steps : List Step) (h : Handle β) :
    Chain draw h (runEach draw steps h).moments (runEach draw steps h).handle := by
  induction steps generalizing h with
  | nil => exact .nil h
  | cons step steps ih => exact (chain_run draw step h).append (ih _)

end Step

def drawLineFrom (draw : Draw β) (closed : Bool) : (limit : Nat) → (line : ByteArray) → β →
    Except Failure ByteArray × β
  | 0, line, content => (.ok line, content)
  | limit + 1, line, content =>
    match draw closed (some 1) content with
    | (.error failure, content) => (.error failure, content)
    | (.ok bytes, content) =>
      if bytes.size = 0 then (.ok line, content)
      else
        let line := line ++ bytes
        if Codec.byteAt bytes 0 = 0x0a then (.ok line, content)
        else drawLineFrom draw closed limit line content

def drawn (draw : Draw β) (closed : Bool) (reading : Reading) (content : β) :
    Except Failure Delivery × β :=
  match reading with
  | .some size =>
    let (result, content) := draw closed (some size) content
    (result.map .bytes, content)
  | .into buffer =>
    let (result, content) := draw closed (some buffer.size) content
    (result.map fun bytes =>
      .filled bytes.size (bytes ++ buffer.extract bytes.size buffer.size), content)
  | .line limit =>
    let (result, content) := drawLineFrom draw closed limit .empty content
    (result.map .bytes, content)
  | .all =>
    let (result, content) := draw closed none content
    (result.map .bytes, content)

theorem read_shut (draw : Draw β) (size : Option Nat) (scheme : Codec.Scheme) (hooks : List Hook)
    (count : Nat) (s : Shared β) :
    (shut scheme hooks count).read draw size s
      =
    ((draw (s.streamClosed scheme) size s.content).1,
      { s with content := (draw (s.streamClosed scheme) size s.content).2 }) := by
  induction hooks generalizing count with
  | nil => rfl
  | cons hook hooks ih => exact ih (count - 1)

theorem streamClosed_content (scheme : Codec.Scheme) (s : Shared β) (content : β) :
    ({ s with content } : Shared β).streamClosed scheme = s.streamClosed scheme := by
  cases scheme <;> rfl

theorem readLineFrom_shut (draw : Draw β) (scheme : Codec.Scheme) (hooks : List Hook) (count : Nat)
    (limit : Nat) (line : ByteArray) (s : Shared β) :
    readLineFrom draw (shut scheme hooks count) limit line s
      =
    ((drawLineFrom draw (s.streamClosed scheme) limit line s.content).1,
      { s with
        content := (drawLineFrom draw (s.streamClosed scheme) limit line s.content).2 }) := by
  induction limit generalizing line s with
  | zero => rfl
  | succ limit ih =>
    unfold readLineFrom drawLineFrom
    rw [read_shut]
    rcases draw (s.streamClosed scheme) (some 1) s.content with ⟨result, content⟩
    cases result with
    | error failure => rfl
    | ok bytes =>
      dsimp only
      split
      · rfl
      · split
        · rfl
        · rw [ih, streamClosed_content]

theorem serve_shut (draw : Draw β) (reading : Reading) (scheme : Codec.Scheme) (hooks : List Hook)
    (count : Nat) (s : Shared β) :
    (shut scheme hooks count).serve draw reading s
      =
    ((drawn draw (s.streamClosed scheme) reading s.content).1,
      { s with content := (drawn draw (s.streamClosed scheme) reading s.content).2 }) := by
  unfold serve drawn
  cases reading with
  | some size =>
    dsimp only
    rw [read_shut]
  | into buffer =>
    dsimp only
    rw [read_shut]
  | line limit =>
    dsimp only
    rw [readLineFrom_shut]
  | all =>
    dsimp only
    rw [read_shut]

namespace Handle

def opened (scheme : Codec.Scheme) (hooks : List Hook) (content : β) : Handle β :=
  ⟨.reader scheme hooks, { content }⟩

/-- A reader of which `count` layers are open, from the outermost on, and the others closed. -/
def withOpen (scheme : Codec.Scheme) (hooks : List Hook) (count : Nat) (content : β) : Handle β :=
  ⟨.shut scheme hooks count, .after scheme hooks count content⟩

theorem withOpen_all (scheme : Codec.Scheme) (hooks : List Hook) (content : β) :
    withOpen scheme hooks (hooks.length + 1) content = opened scheme hooks content := by
  unfold withOpen opened
  rw [shut_all, after_all]

end Handle

namespace Op

variable (draw : Draw β) (scheme : Codec.Scheme) (hooks : List Hook) (depth count : Nat)
  (content : β)

theorem perform_read (reading : Reading) :
    (read depth reading).perform draw (.withOpen scheme hooks count content)
      =
    ((drawn draw (count ≤ hooks.length) reading content).1.map some,
      .withOpen scheme hooks count (drawn draw (count ≤ hooks.length) reading content).2) := by
  unfold perform Handle.withOpen
  dsimp only
  rw [inside_shut, serve_shut, streamClosed_after]
  rfl

theorem perform_enter :
    (enter depth).perform draw (.withOpen scheme hooks count content)
      =
    (if count ≤ min depth hooks.length then .error (Reader.closedFailure .plain) else .ok none,
      .withOpen scheme hooks count content) := by
  unfold perform Handle.withOpen
  dsimp only
  rw [inside_shut, isClosed_shut]
  simp only [decide_eq_true_eq, Nat.sub_eq_zero_iff_le]

theorem perform_close :
    (close depth).perform draw (.withOpen scheme hooks count content)
      =
    (ended (raised ((hooks.take count).drop depth)),
      .withOpen scheme hooks (min count (min depth hooks.length)) content) := by
  unfold perform Handle.withOpen
  dsimp only
  rw [closeAt_shut]

end Op

end Depot.Nest
