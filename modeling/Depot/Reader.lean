import Depot.Codec.Body
import Depot.Failure

/-!
This module contains readers: streams over the body of an object that close the object together
with themselves. A reader may be wrapped in layers, each of which runs a hook after what it wraps
was closed.
-/

namespace Depot

structure Hook where
  announces : Option String := none
  failure : Option Failure := none

structure HookRun where
  hook : Hook
  sawClosed : Bool

structure Layer where
  hook : Hook
  closed : Bool := false

/-- A reader with its layers, the outermost first. -/
structure Reader where
  body : Codec.Body
  layers : List Layer := []
  closed : Bool := false
  rawClosed : Bool := false
  ran : List HookRun := []

namespace Reader

def ofBytes (scheme : Codec.Scheme) (raw : ByteArray) : Reader :=
  { body := .ofBytes scheme raw }

def wrap (r : Reader) (hook : Hook) : Reader :=
  { r with layers := { hook } :: r.layers }

/-- Whether the outermost layer is closed. -/
def isClosed (r : Reader) : Bool :=
  match r.layers with
  | [] => r.closed
  | layer :: _ => layer.closed

def closedStream : Codec.Body → ClosedStream
  | .plain _ _ => .plain
  | .gzip _ => .gzip
  | .zstd _ => .zstd

def closedFailure (stream : ClosedStream) : Failure :=
  { reason := .closed stream }

def answer (r : Reader) (result : Except Codec.Fault ByteArray × Codec.Body) :
    Except Failure ByteArray × Reader :=
  let r := { r with body := result.2 }
  match result.1 with
  | .error fault => (.error { reason := .codec fault }, r)
  | .ok bytes => (.ok bytes, r)

/-- Reads at most `size` bytes. -/
def read (r : Reader) (size : Nat) : Except Failure ByteArray × Reader :=
  if r.rawClosed then (.error (closedFailure (closedStream r.body)), r)
  else r.answer (r.body.read size)

def readAll (r : Reader) : Except Failure ByteArray × Reader :=
  if r.rawClosed then (.error (closedFailure (closedStream r.body)), r)
  else r.answer r.body.readAll

/-- Reads into a buffer: the number of bytes read, and the buffer with them at its start. -/
def readInto (r : Reader) (buffer : ByteArray) : Except Failure (Nat × ByteArray) × Reader :=
  match r.read buffer.size with
  | (.error failure, r) => (.error failure, r)
  | (.ok bytes, r) =>
    (.ok (bytes.size, bytes ++ buffer.extract bytes.size buffer.size), r)

def readLineFrom : (fuel : Nat) → Reader → ByteArray → Except Failure ByteArray × Reader
  | 0, r, line => (.ok line, r)
  | fuel + 1, r, line =>
    match r.read 1 with
    | (.error failure, r) => (.error failure, r)
    | (.ok bytes, r) =>
      if bytes.size = 0 then (.ok line, r)
      else
        let line := line ++ bytes
        if Codec.byteAt bytes 0 = 0x0a then (.ok line, r) else readLineFrom fuel r line

def readLine (r : Reader) : Except Failure ByteArray × Reader :=
  readLineFrom (r.body.left + 1) r .empty

/-- Closes layers, the outermost first in the list and last in effect. -/
def closeLayers : List Layer → Reader → Option Failure × List Layer × Reader
  | [], r => (none, [], { r with closed := true, rawClosed := true })
  | layer :: inner, r =>
    if layer.closed then (none, layer :: inner, r)
    else
      let (failure, inner, r) := closeLayers inner r
      let r := { r with ran := r.ran ++ [⟨layer.hook, r.rawClosed⟩] }
      (layer.hook.failure <|> failure, { layer with closed := true } :: inner, r)

/-- Closes all layers and the object. Of several hooks that fail the outermost is reported. -/
def close (r : Reader) : Except Failure Unit × Reader :=
  let (failure, layers, r) := closeLayers r.layers r
  let r := { r with layers }
  match failure with
  | some failure => (.error failure, r)
  | none => (.ok (), r)

/-- Reads all that is left and closes the reader, whatever comes of it. -/
def readAndClose (r : Reader) : Except Failure ByteArray × Reader :=
  if r.isClosed then (.error (closedFailure .plain), r)
  else
    let (result, r) := r.readAll
    match r.close with
    | (.error failure, r) => (.error failure, r)
    | (.ok _, r) => (result, r)

end Reader

end Depot
