import Depot.Reader

/-!
This module contains what the hooks that announce the closing of readers change about them: nothing
but that they run. The reader without them is read and closed in the same way, also through the
readers that its other layers wrap.
-/

namespace Depot

def Hook.isSilent (hook : Hook) : Bool :=
  hook.announces.isNone

inductive Use where
  | read (size : Nat)
  | readInto (buffer : ByteArray)
  | readLine
  | readAll
  | close
  | readAndClose

inductive Delivery where
  | bytes (bytes : ByteArray)
  | filled (count : Nat) (buffer : ByteArray)
  | closed

def Use.perform (use : Use) (r : Reader) : Except Failure Delivery × Reader :=
  match use with
  | read size => ((r.read size).1.map .bytes, (r.read size).2)
  | readInto buffer =>
    ((r.readInto buffer).1.map fun (count, buffer) => .filled count buffer, (r.readInto buffer).2)
  | readLine => (r.readLine.1.map .bytes, r.readLine.2)
  | readAll => (r.readAll.1.map .bytes, r.readAll.2)
  | close => (r.close.1.map fun _ => .closed, r.close.2)
  | readAndClose => (r.readAndClose.1.map .bytes, r.readAndClose.2)

namespace Reader

def silentLayers (layers : List Layer) : List Layer :=
  layers.filter (·.hook.isSilent)

theorem silentLayers_cons {layer : Layer} (h : layer.hook.isSilent = true) (layers : List Layer) :
    silentLayers (layer :: layers) = layer :: silentLayers layers :=
  List.filter_cons_of_pos h

def silentRuns (runs : List HookRun) : List HookRun :=
  runs.filter (·.hook.isSilent)

def bared (r : Reader) : Reader :=
  { r with layers := silentLayers r.layers, ran := silentRuns r.ran }

/--
Whether some layers may be those of a reader that is closed or not: at most the innermost announces
the closing, and is closed together with the reader.
-/
inductive Sheathed (closed : Bool) : List Layer → Prop where
  | bare : Sheathed closed []
  | announced (name : String) : Sheathed closed [{ hook := { announces := some name }, closed }]
  | silent {layer : Layer} {layers : List Layer} (hsilent : layer.hook.isSilent = true)
      (h : Sheathed closed layers) : Sheathed closed (layer :: layers)

/-- Whether a reader closes its object with itself, and may only announce that innermost. -/
structure Proper (r : Reader) : Prop where
  layers : Sheathed r.closed r.layers
  rawClosed : r.closed = true → r.rawClosed = true

variable {r : Reader}

theorem Sheathed.append {closed : Bool} {outer inner : List Layer}
    (h : ∀ layer ∈ outer, layer.hook.isSilent = true) (hinner : Sheathed closed inner) :
    Sheathed closed (outer ++ inner) := by
  induction outer with
  | nil => exact hinner
  | cons layer outer ih =>
    rw [List.forall_mem_cons] at h
    exact .silent h.1 (ih h.2)

theorem Sheathed.split {closed : Bool} {layers : List Layer} (h : Sheathed closed layers)
    {depth : Nat} (hdepth : depth ≤ (silentLayers layers).length) :
    (∀ layer ∈ layers.take depth, layer.hook.isSilent = true) ∧ Sheathed closed (layers.drop depth)
      ∧ layers.take depth = (silentLayers layers).take depth
      ∧ silentLayers (layers.drop depth) = (silentLayers layers).drop depth := by
  induction h generalizing depth with
  | bare => exact ⟨by simp, by rw [List.drop_nil]; exact .bare, rfl, by simp [silentLayers]⟩
  | announced name =>
    obtain rfl : depth = 0 := Nat.le_zero.1 hdepth
    exact ⟨by simp, .announced name, rfl, rfl⟩
  | silent hsilent h ih =>
    cases depth with
    | zero => exact ⟨by simp, .silent hsilent h, rfl, rfl⟩
    | succ depth =>
      rw [silentLayers_cons hsilent] at hdepth ⊢
      obtain ⟨htake, hdrop, htaken, hdropped⟩ := ih (Nat.le_of_succ_le_succ hdepth)
      refine ⟨?_, hdrop, ?_, hdropped⟩
      · rw [List.take_succ_cons, List.forall_mem_cons]
        exact ⟨hsilent, htake⟩
      · rw [List.take_succ_cons, List.take_succ_cons, htaken]

theorem Proper.of_same {r' : Reader} (h : r.Proper) (hlayers : r'.layers = r.layers)
    (hclosed : r'.closed = r.closed) (hraw : r'.rawClosed = r.rawClosed) : r'.Proper := by
  refine ⟨?_, ?_⟩
  · rw [hlayers, hclosed]
    exact h.layers
  · rw [hclosed, hraw]
    exact h.rawClosed

/-- Whether something that is done with a reader is the same without the hooks that announce. -/
structure Bares {α : Type} (act : Reader → Except Failure α × Reader) (r : Reader) : Prop where
  bared_eq : act r.bared = ((act r).1, (act r).2.bared)
  proper : (act r).2.Proper

theorem closeLayers_of_open {layer : Layer} (h : layer.closed = false) {inner inner' : List Layer}
    {r r' : Reader} {failure : Option Failure} (hinner : closeLayers inner r = (failure, inner', r')) :
    closeLayers (layer :: inner) r
      =
    (layer.hook.failure <|> failure, { layer with closed := true } :: inner',
      { r' with ran := r'.ran ++ [⟨layer.hook, r'.rawClosed⟩] }) := by
  rw [closeLayers, if_neg (by rw [h]; exact Bool.false_ne_true), hinner]

def around (r : Reader) (depth : Nat) : Nat :=
  min depth (silentLayers r.layers).length

def inside (r : Reader) (count : Nat) : Reader :=
  { r with layers := r.layers.drop count }

def enclosing (r : Reader) (count : Nat) (inner : Reader) : Reader :=
  { inner with layers := r.layers.take count ++ inner.layers }

def through (r : Reader) (depth : Nat) (use : Use) : Except Failure Delivery × Reader :=
  let count := r.around depth
  ((use.perform (r.inside count)).1, r.enclosing count (use.perform (r.inside count)).2)

theorem Proper.wrap (h : r.Proper) (failure : Option Failure) : (r.wrap { failure }).Proper :=
  ⟨.silent rfl h.layers, h.rawClosed⟩

theorem Proper.enclosing {inner : Reader} (hinner : inner.Proper) (h : r.Proper) (depth : Nat) :
    (r.enclosing (r.around depth) inner).Proper :=
  ⟨.append (h.layers.split (Nat.min_le_right depth _)).1 hinner.layers, hinner.rawClosed⟩

theorem Bares.map {α β : Type} {act : Reader → Except Failure α × Reader} (h : Bares act r)
    (f : Except Failure α → Except Failure β) : Bares (fun r => (f (act r).1, (act r).2)) r :=
  ⟨by rw [h.bared_eq], h.proper⟩

end Reader

end Depot
