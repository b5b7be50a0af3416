import Depot.Codec.Encoder
import Depot.Failure

/-!
This module contains the copying of a source into a sink through an encoder.
-/

namespace Depot

inductive Pull where
  | chunk (bytes : ByteArray)
  | failed (failure : Failure)

/-- The answers of a source to its reads. After them it has ended. -/
abbrev Source := List Pull

def copyChunk : Nat := 1048576

namespace Source

/-- The bytes from a position on, in chunks of `size`. -/
def chunksFrom (bytes : ByteArray) (size : Nat) : (left pos : Nat) → List ByteArray
  | 0, _ => []
  | left + 1, pos =>
    if bytes.size ≤ pos then []
    else bytes.extract pos (pos + size) :: chunksFrom bytes size left (pos + size)

/-- The bytes in chunks of `size`; there are none of no size. -/
def chunks (bytes : ByteArray) (size : Nat) : List ByteArray :=
  if size = 0 then [] else chunksFrom bytes size bytes.size 0

def ofBytes (bytes : ByteArray) : Source :=
  (chunks bytes copyChunk).map .chunk

/-- A source that delivers at most `short` bytes at once, and whose read `failAt` fails. -/
def ofStream (bytes : ByteArray) (short : Option Nat) (failAt : Option Nat) (failure : Failure) :
    Source :=
  let size := min copyChunk (short.getD copyChunk)
  let pulls := (chunks bytes size).map Pull.chunk
  match failAt with
  | some (n + 1) =>
    if n ≤ pulls.length then pulls.take n ++ [.failed failure] else pulls
  | _ => pulls

end Source

structure Sink where
  /-- The failure of each write, by its number, if it fails. -/
  refuses : Nat → Option Failure := fun _ => none
  tries : Nat := 0
  writes : List ByteArray := []
  closed : Bool := false

namespace Sink

def bytes (sink : Sink) : ByteArray :=
  sink.writes.reverse.foldl (· ++ ·) .empty

def close (sink : Sink) : Sink :=
  { sink with closed := true }

/-- Writes one piece. A sink that was closed takes none. -/
def write (sink : Sink) (piece : ByteArray) : Except Failure Unit × Sink :=
  let tries := sink.tries + 1
  if sink.closed then (.error { reason := .closed .plain }, sink)
  else
    match sink.refuses tries with
    | some failure => (.error failure, { sink with tries })
    | none => (.ok (), { sink with tries, writes := piece :: sink.writes })

def writeAll (sink : Sink) : List ByteArray → Except Failure Unit × Sink
  | [] => (.ok (), sink)
  | piece :: pieces =>
    match sink.write piece with
    | (.error failure, sink) => (.error failure, sink)
    | (.ok _, sink) => sink.writeAll pieces

end Sink

structure Copied where
  /-- The number of bytes that were read from the source, unless the copy failed. -/
  outcome : Except Failure Nat
  sink : Sink
  requests : List Nat
  rest : Source

/-- Copies what is left of a source; `total` bytes were copied before. -/
def copyFrom (encoder : Codec.Encoder) (sink : Sink) (total : Nat) : Source → Copied
  | [] => close [] encoder sink total
  | .failed failure :: rest => ⟨.error failure, sink, [copyChunk], rest⟩
  | .chunk bytes :: rest =>
    if bytes.size = 0 then close rest encoder sink total
    else
      let (encoder, pieces) := encoder.feed bytes
      match sink.writeAll pieces with
      | (.error failure, sink) => ⟨.error failure, sink, [copyChunk], rest⟩
      | (.ok _, sink) =>
        let copied := copyFrom encoder sink (total + bytes.size) rest
        { copied with requests := copyChunk :: copied.requests }
where
  close (rest : Source) (encoder : Codec.Encoder) (sink : Sink) (total : Nat) : Copied :=
    match sink.writeAll encoder.finish with
    | (.error failure, sink) => ⟨.error failure, sink, [copyChunk], rest⟩
    | (.ok _, sink) => ⟨.ok total, sink, [copyChunk], rest⟩

/-- Copies a source into a sink, compressed by a scheme. The sink stays open. -/
def compressedCopy (source : Source) (sink : Sink) (scheme : Codec.Scheme) : Copied :=
  let (encoder, pieces) := Codec.Encoder.start scheme
  match sink.writeAll pieces with
  | (.error failure, sink) => ⟨.error failure, sink, [], source⟩
  | (.ok _, sink) => copyFrom encoder sink 0 source

end Depot
