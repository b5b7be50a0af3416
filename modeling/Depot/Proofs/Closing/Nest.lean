import Depot.Reader

/-!
This module contains readers as nests: a stream over an object, and layers around it. A layer that
is closed closes what it wraps, then does what else it has to do, and counts as closed whatever
comes of that.
-/

namespace Depot

/--
What a read of a stream brings and leaves, as long as the stream is open and after that. No size
stands for all that is left.
-/
abbrev Draw (β : Type) :=
  (closed : Bool) → Option Nat → β → Except Failure ByteArray × β

structure Shared (β : Type) where
  content : β
  decoderClosed : Bool := false
  rawClosings : Nat := 0
  ran : List HookRun := []

/-- What a layer has to do after it has closed what it wraps. -/
inductive Duty where
  | closeRaw
  | run (hook : Hook)

inductive Nest where
  /-- The raw stream, or the decoder over it. -/
  | stream (scheme : Codec.Scheme)
  | layer (inner : Nest) (duties : List Duty) (closed : Bool)

variable {β : Type}

namespace Shared

def closeRaw (s : Shared β) : Shared β :=
  { s with rawClosings := s.rawClosings + 1 }

def rawClosed (s : Shared β) : Bool :=
  0 < s.rawClosings

/-- Closes the stream of a scheme. Not every decoder closes the raw stream with itself. -/
def closeStream (scheme : Codec.Scheme) (s : Shared β) : Shared β :=
  match scheme with
  | .none => s.closeRaw
  | .gzip => { s with decoderClosed := true }
  | .zstd => if s.decoderClosed then s else { s with decoderClosed := true }.closeRaw

def streamClosed (scheme : Codec.Scheme) (s : Shared β) : Bool :=
  match scheme with
  | .none => s.rawClosed
  | .gzip | .zstd => s.decoderClosed

end Shared

namespace Duty

def ofScheme : Codec.Scheme → List Duty
  | .gzip => [.closeRaw]
  | .none | .zstd => []

def perform (duty : Duty) (s : Shared β) : Option Failure × Shared β :=
  match duty with
  | closeRaw => (none, s.closeRaw)
  | run hook => (hook.failure, { s with ran := s.ran ++ [⟨hook, s.rawClosed⟩] })

def performAll : List Duty → Shared β → Option Failure × Shared β
  | [], s => (none, s)
  | duty :: duties, s =>
    match duty.perform s with
    | (some failure, s) => (some failure, s)
    | (none, s) => performAll duties s

end Duty

namespace Nest

def wrap (nest : Nest) (hook : Hook) : Nest :=
  .layer nest [.run hook] false

def ofScheme (scheme : Codec.Scheme) : Nest :=
  .layer (.stream scheme) (Duty.ofScheme scheme) false

def reader (scheme : Codec.Scheme) (hooks : List Hook) : Nest :=
  hooks.foldr (fun hook nest => nest.wrap hook) (ofScheme scheme)

/-- Closes a nest. Of several failures the last one, which is that of the outermost, is raised. -/
def close : Nest → Shared β → Option Failure × Nest × Shared β
  | stream scheme, s => (none, stream scheme, s.closeStream scheme)
  | layer inner duties closed, s =>
    if closed then (none, layer inner duties closed, s)
    else
      let (failure, inner, s) := inner.close s
      let (failure', s) := Duty.performAll duties s
      (failure' <|> failure, layer inner duties true, s)

/-- Closes the layer that is `depth` layers inside, or the innermost one. -/
def closeAt : Nat → Nest → Shared β → Option Failure × Nest × Shared β
  | depth + 1, layer (layer inner duties' closed') duties closed, s =>
    let (failure, inner, s) := closeAt depth (layer inner duties' closed') s
    (failure, layer inner duties closed, s)
  | _, nest, s => nest.close s

def inside : Nat → Nest → Nest
  | depth + 1, layer (layer inner duties' closed') _ _ => inside depth (layer inner duties' closed')
  | _, nest => nest

def isClosed : Nest → Bool
  | stream _ => false
  | layer _ _ closed => closed

def read (draw : Draw β) (size : Option Nat) :
    Nest → Shared β → Except Failure ByteArray × Shared β
  | stream scheme, s =>
    let (result, content) := draw (s.streamClosed scheme) size s.content
    (result, { s with content })
  | layer inner _ _, s => inner.read draw size s

/-- Which layers are closed, the outermost first. -/
def flags : Nest → List Bool
  | stream _ => []
  | layer inner _ closed => closed :: inner.flags

/-- A reader of which `count` layers are open, from the outermost on. -/
def shut (scheme : Codec.Scheme) : (hooks : List Hook) → (count : Nat) → Nest
  | [], count => .layer (.stream scheme) (Duty.ofScheme scheme) (count = 0)
  | hook :: hooks, count => .layer (shut scheme hooks (count - 1)) [.run hook] (count = 0)

/-- What several hooks raise, the outermost first: what the outermost of those raises that fail. -/
def raised (hooks : List Hook) : Option Failure :=
  hooks.findSome? (·.failure)

/-- Hooks that ran after the raw stream was closed, the innermost first. -/
def runs (hooks : List Hook) : List HookRun :=
  hooks.reverse.map (⟨·, true⟩)

end Nest

def Shared.after (scheme : Codec.Scheme) (hooks : List Hook) (count : Nat) (content : β) :
    Shared β :=
  { content
    decoderClosed := scheme ≠ .none && count ≤ hooks.length
    rawClosings := if count ≤ hooks.length then 1 else 0
    ran := Nest.runs (hooks.drop count) }

namespace Nest

variable {scheme : Codec.Scheme} {hooks : List Hook} {hook : Hook} {count : Nat} {content : β}

theorem shut_all (scheme : Codec.Scheme) (hooks : List Hook) :
    shut scheme hooks (hooks.length + 1) = reader scheme hooks := by
  induction hooks with
  | nil => rfl
  | cons hook hooks ih =>
    have hinner : shut scheme hooks (hooks.length + 1 + 1 - 1) = reader scheme hooks := ih
    unfold shut
    rw [List.length_cons, hinner]
    rfl

theorem after_all (scheme : Codec.Scheme) (hooks : List Hook) (content : β) :
    Shared.after scheme hooks (hooks.length + 1) content = { content } := by
  have hopen : ¬ hooks.length + 1 ≤ hooks.length := by omega
  unfold Shared.after
  rw [decide_eq_false hopen, if_neg hopen, List.drop_eq_nil_of_le (by omega), Bool.and_false]
  rfl

theorem after_cons (scheme : Codec.Scheme) (hook : Hook) (hooks : List Hook) (count : Nat)
    (content : β) :
    Shared.after scheme (hook :: hooks) (count + 1) content
      =
    Shared.after scheme hooks count content := by
  unfold Shared.after
  simp only [List.length_cons, Nat.add_le_add_iff_right, List.drop_succ_cons]

theorem closeAt_zero (nest : Nest) (s : Shared β) : closeAt 0 nest s = nest.close s := rfl

theorem closeAt_innermost (scheme : Codec.Scheme) (depth count : Nat) (s : Shared β) :
    closeAt depth (shut scheme [] count) s = (shut scheme [] count).close s := by
  cases depth <;> rfl

theorem closeAt_inner (scheme : Codec.Scheme) (hook : Hook) (hooks : List Hook)
    (depth count : Nat) (s : Shared β) :
    closeAt (depth + 1) (shut scheme (hook :: hooks) count) s
      =
    ((closeAt depth (shut scheme hooks (count - 1)) s).1,
      .layer (closeAt depth (shut scheme hooks (count - 1)) s).2.1 [.run hook] (count = 0),
      (closeAt depth (shut scheme hooks (count - 1)) s).2.2) := by
  cases hooks <;> rfl

theorem closeAt_shut_zero (scheme : Codec.Scheme) (hooks : List Hook) (depth : Nat)
    (s : Shared β) :
    closeAt depth (shut scheme hooks 0) s = (none, shut scheme hooks 0, s) := by
  induction hooks generalizing depth with
  | nil =>
    rw [closeAt_innermost]
    rfl
  | cons hook hooks ih =>
    cases depth with
    | zero => rfl
    | succ depth =>
      rw [closeAt_inner, Nat.zero_sub, ih]
      rfl

theorem close_innermost (scheme : Codec.Scheme) (count : Nat) (content : β) :
    close (shut scheme [] (count + 1)) (.after scheme [] (count + 1) content)
      =
    (none, shut scheme [] 0, .after scheme [] 0 content) := by
  have hopen : Shared.after scheme [] (count + 1) content = { content } := by
    cases scheme <;> rfl
  rw [hopen]
  cases scheme <;> rfl

theorem performAll_run (hook : Hook) (s : Shared β) :
    Duty.performAll [.run hook] s
      =
    (hook.failure, { s with ran := s.ran ++ [⟨hook, s.rawClosed⟩] }) := by
  unfold Duty.performAll Duty.perform
  dsimp only
  cases hook.failure <;> rfl

theorem runs_cons (hook : Hook) (hooks : List Hook) :
    runs (hook :: hooks) = runs hooks ++ [⟨hook, true⟩] := by
  unfold runs
  rw [List.reverse_cons, List.map_append]
  rfl

theorem raised_cons (hook : Hook) (hooks : List Hook) :
    raised (hook :: hooks) = (hook.failure <|> raised hooks) := by
  unfold raised
  rw [List.findSome?_cons]
  cases hook.failure <;> rfl

theorem close_shut (scheme : Codec.Scheme) (hooks : List Hook) (count : Nat) (content : β) :
    close (shut scheme hooks count) (.after scheme hooks count content)
      =
    (raised (hooks.take count), shut scheme hooks 0, .after scheme hooks 0 content) := by
  induction hooks generalizing count with
  | nil =>
    cases count with
    | zero => rfl
    | succ count => exact close_innermost scheme count content
  | cons hook hooks ih =>
    cases count with
    | zero => rfl
    | succ count =>
      have hran : ({ Shared.after scheme hooks 0 content with
          ran := (Shared.after scheme hooks 0 content).ran
            ++ [⟨hook, (Shared.after scheme hooks 0 content).rawClosed⟩] } : Shared β)
          = .after scheme (hook :: hooks) 0 content := by
        unfold Shared.after
        rw [List.drop_zero, List.drop_zero, runs_cons]
        simp [Shared.rawClosed]
      rw [after_cons, shut, close, Nat.add_sub_cancel, ih, List.take_succ_cons, raised_cons]
      dsimp only
      rw [performAll_run, hran]
      rfl

theorem closeAt_shut (scheme : Codec.Scheme) (hooks : List Hook) (depth count : Nat) (content : β) :
    closeAt depth (shut scheme hooks count) (.after scheme hooks count content)
      =
    (raised ((hooks.take count).drop depth), shut scheme hooks (min count (min depth hooks.length)),
      .after scheme hooks (min count (min depth hooks.length)) content) := by
  induction hooks generalizing depth count with
  | nil =>
    rw [closeAt_innermost, close_shut, List.take_nil, List.drop_nil, List.length_nil, Nat.min_zero,
      Nat.min_zero]
  | cons hook hooks ih =>
    cases depth with
    | zero => rw [closeAt_zero, close_shut, List.drop_zero, Nat.zero_min, Nat.min_zero]
    | succ depth =>
      cases count with
      | zero =>
        rw [closeAt_shut_zero, List.take_zero, List.drop_nil, Nat.zero_min]
        rfl
      | succ count =>
        have hmin : min (count + 1) (min (depth + 1) (hook :: hooks).length)
            = min count (min depth hooks.length) + 1 := by
          rw [List.length_cons]
          omega
        rw [closeAt_inner, after_cons, Nat.add_sub_cancel, ih, List.take_succ_cons,
          List.drop_succ_cons, hmin, after_cons]
        rfl

theorem inside_shut (scheme : Codec.Scheme) (hooks : List Hook) (depth count : Nat) :
    (shut scheme hooks count).inside depth
      =
    shut scheme (hooks.drop depth) (count - min depth hooks.length) := by
  induction hooks generalizing depth count with
  | nil =>
    rw [List.drop_nil, List.length_nil, Nat.min_zero, Nat.sub_zero]
    cases depth <;> rfl
  | cons hook hooks ih =>
    cases depth with
    | zero => rw [Nat.zero_min, Nat.sub_zero, List.drop_zero]; rfl
    | succ depth =>
      have hinside : (shut scheme (hook :: hooks) count).inside (depth + 1)
          = (shut scheme hooks (count - 1)).inside depth := by
        cases hooks <;> rfl
      have hmin : count - min (depth + 1) (hook :: hooks).length
          = count - 1 - min depth hooks.length := by
        rw [List.length_cons]
        omega
      rw [hinside, ih, List.drop_succ_cons, hmin]

theorem flags_shut_zero (scheme : Codec.Scheme) (hooks : List Hook) :
    (shut scheme hooks 0).flags = List.replicate (hooks.length + 1) true := by
  induction hooks with
  | nil => rfl
  | cons hook hooks ih => exact congrArg (true :: ·) ih

theorem flags_shut_all (scheme : Codec.Scheme) (hooks : List Hook) :
    (shut scheme hooks (hooks.length + 1)).flags = List.replicate (hooks.length + 1) false := by
  induction hooks with
  | nil => rfl
  | cons hook hooks ih => exact congrArg (false :: ·) ih

theorem isClosed_shut (scheme : Codec.Scheme) (hooks : List Hook) (count : Nat) :
    (shut scheme hooks count).isClosed = decide (count = 0) := by
  cases hooks <;> rfl

theorem streamClosed_after (scheme : Codec.Scheme) (hooks : List Hook) (count : Nat) (content : β) :
    (Shared.after scheme hooks count content).streamClosed scheme
      = decide (count ≤ hooks.length) := by
  by_cases hclosed : count ≤ hooks.length
  · cases scheme <;> simp [Shared.streamClosed, Shared.rawClosed, Shared.after, hclosed]
  · cases scheme <;> simp [Shared.streamClosed, Shared.rawClosed, Shared.after, hclosed]

end Nest

end Depot
