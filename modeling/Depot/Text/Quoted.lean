import Depot.Text.Hex
import Depot.Text.Printable

/-!
This module contains quoted text, the form in which names and file paths are shown in messages.
The quotes are single, unless the text holds a single quote and no double one. A backslash
precedes the quote and itself; what is unprintable is written by its code point.
-/

namespace Depot.Text

def quoteFor (cs : List Char) : Char :=
  if cs.contains '\'' && !cs.contains '"' then '"' else '\''

def escapeCode (n : Nat) : List Char :=
  if n ≤ 0xff then '\\' :: 'x' :: hexPadded 2 n
  else if n ≤ 0xffff then '\\' :: 'u' :: hexPadded 4 n
  else '\\' :: 'U' :: hexPadded 8 n

def shortEscape? (quote c : Char) : Option (List Char) :=
  if c = quote || c = '\\' then some ['\\', c]
  else if c = '\t' then some ['\\', 't']
  else if c = '\n' then some ['\\', 'n']
  else if c = '\r' then some ['\\', 'r']
  else none

def quoteChar (quote c : Char) : List Char :=
  match shortEscape? quote c with
  | some escape => escape
  | none => if isPrintable c then [c] else escapeCode c.toNat

def quoted (s : String) : String :=
  let cs := s.toList
  let quote := quoteFor cs
  String.ofList (quote :: cs.flatMap (quoteChar quote) ++ [quote])

/-- One byte of quoted bytes: only printable ASCII stands for itself. -/
def quoteByte (quote : Char) (b : UInt8) : List Char :=
  let c := Char.ofNat b.toNat
  match shortEscape? quote c with
  | some escape => escape
  | none =>
    if 0x20 ≤ b.toNat && b.toNat < 0x7f then [c] else '\\' :: 'x' :: hexPadded 2 b.toNat

/-- Bytes in quotes, after a `b`. -/
def quotedBytes (bytes : List UInt8) : String :=
  let quote := quoteFor (bytes.map fun b => Char.ofNat b.toNat)
  String.ofList ('b' :: quote :: bytes.flatMap (quoteByte quote) ++ [quote])

end Depot.Text
