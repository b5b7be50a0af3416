import Depot.Codec.Buffered
import Depot.Codec.Gzip
import Depot.Codec.Scheme
import Depot.Codec.Zstd.Frame

/-!
This module contains bodies as they are read: the bytes of an object, decoded by its scheme.
-/

namespace Depot.Codec

inductive Body where
  | plain (bytes : ByteArray) (pos : Nat)
  | gzip (buffered : Buffered)
  | zstd (tape : Tape)

namespace Body

def ofBytes (scheme : Scheme) (bytes : ByteArray) : Body :=
  match scheme with
  | .none => .plain bytes 0
  | .gzip => .gzip { tape := Gzip.decode bytes }
  | .zstd => .zstd (Zstd.decode bytes)

def left : Body → Nat
  | .plain bytes pos => bytes.size - pos
  | .gzip b => b.pending.size + b.tape.size
  | .zstd tape => tape.size

/-- Reads at most `size` bytes; none are left if it reads none of some. -/
def read (body : Body) (size : Nat) : Except Fault ByteArray × Body :=
  match body with
  | .plain bytes pos =>
    (.ok (bytes.extract pos (pos + size)), .plain bytes (min (pos + size) (max pos bytes.size)))
  | .gzip b =>
    let (result, b) := b.read size
    (result, .gzip b)
  | .zstd tape =>
    let (result, tape) := tape.read size
    (result, .zstd tape)

def readAll : Body → Except Fault ByteArray × Body
  | .plain bytes pos => (.ok (bytes.extract pos bytes.size), .plain bytes (max pos bytes.size))
  | .gzip b =>
    let (result, b) := b.readAll
    (result, .gzip b)
  | .zstd tape =>
    let (result, tape) := tape.readAll
    (result, .zstd tape)

end Body

end Depot.Codec
