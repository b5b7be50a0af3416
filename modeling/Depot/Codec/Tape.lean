import Depot.Codec.Error

/-!
This module contains decoded bodies as their readers meet them: stretches of data, each of which
may end in an error, and what is met after the last of them.
-/

namespace Depot.Codec

/--
A stretch of data. One read never reaches past its end. A read that asks for all that is left of a
stretch with a fault loses it to the fault.
-/
structure Stretch where
  bytes : ByteArray
  fault : Option Fault := none
  brink : Option Nat := none

structure Tape where
  pos : Nat := 0
  stretches : List Stretch
  /-- What every read meets after the last stretch; none stands for the end of the data. -/
  ending : Option Fault := none

namespace Tape

def blank : Tape :=
  { stretches := [] }

def failing (error : Fault) : Tape :=
  { stretches := [], ending := some error }

def push (tape : Tape) (bytes : ByteArray) (fault : Option Fault) : Tape :=
  { tape with pos := 0, stretches := { bytes, fault } :: tape.stretches }

def pushLoose (tape : Tape) (bytes : ByteArray) (brink : Nat) : Tape :=
  { tape with pos := 0, stretches := { bytes, brink := some brink } :: tape.stretches }

def size (tape : Tape) : Nat :=
  tape.stretches.foldl (fun n s => n + s.bytes.size) 0

def rest (tape : Tape) : ByteArray :=
  match tape.stretches with
  | [] => .empty
  | s :: more =>
    more.foldl (fun acc s => acc ++ s.bytes) (s.bytes.extract tape.pos s.bytes.size)

/-- Reads some of the data, at most `size` bytes; nothing only at the end, if `size` is not zero. -/
def readSome (ending : Option Fault) (size : Nat) :
    (pos : Nat) → (stretches : List Stretch) → Except Fault ByteArray × Tape
  | _, [] =>
    match ending with
    | none => (.ok .empty, ⟨0, [], none⟩)
    | some e => (.error e, ⟨0, [], some e⟩)
  | pos, s :: more =>
    let left := s.bytes.size - pos
    match s.fault with
    | some e =>
      if size < left then
        (.ok (s.bytes.extract pos (pos + size)), ⟨pos + size, s :: more, ending⟩)
      else
        (.error e, ⟨0, more, ending⟩)
    | none =>
      if left = 0 then readSome ending size 0 more
      else
        let next := pos + min size left
        (.ok (s.bytes.extract pos next),
          if s.brink.any (· ≤ next) then ⟨0, more, ending⟩ else ⟨next, s :: more, ending⟩)

/-- Reads some of the data, at most `size` bytes; nothing only at the end, if `size` is not zero. -/
def read (tape : Tape) (size : Nat) : Except Fault ByteArray × Tape :=
  if size = 0 then (.ok .empty, tape)
  else readSome tape.ending size tape.pos tape.stretches

/-- All the data from some stretches on; `acc` precedes it, and ends in `fault` if there is one. -/
def gather (ending : Option Fault) (acc : ByteArray) :
    (fault : Option Fault) → List Stretch → Except Fault ByteArray × Tape
  | some e, more => (.error e, ⟨0, more, ending⟩)
  | none, [] =>
    match ending with
    | none => (.ok acc, ⟨0, [], none⟩)
    | some e => (.error e, ⟨0, [], some e⟩)
  | none, s :: more => gather ending (acc ++ s.bytes) s.fault more

/-- Reads all the data; what was read before a fault is lost. -/
def readAll (tape : Tape) : Except Fault ByteArray × Tape :=
  match tape.stretches with
  | [] => gather tape.ending .empty none []
  | s :: more => gather tape.ending (s.bytes.extract tape.pos s.bytes.size) s.fault more

end Tape

end Depot.Codec
