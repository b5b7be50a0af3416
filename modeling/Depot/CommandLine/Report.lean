import Depot.Text.Hex
import Depot.Value

/-!
This module contains reports: values as JSON in ASCII, with each member and item on a line of its
own.
-/

namespace Depot.CommandLine

def escapeUnit (n : Nat) : List Char :=
  '\\' :: 'u' :: Text.hexPadded 4 n

/-- The escape of a character that is not printable ASCII; beyond the first plane it has two. -/
def escapeCharacter (n : Nat) : List Char :=
  if n < 0x10000 then escapeUnit n
  else escapeUnit (0xd7c0 + n / 0x400) ++ escapeUnit (0xdc00 + n % 0x400)

def reportChar (c : Char) : List Char :=
  if c = '"' || c = '\\' then ['\\', c]
  else if c = '\n' then ['\\', 'n']
  else if c = '\r' then ['\\', 'r']
  else if c = '\t' then ['\\', 't']
  else if c = '\x0c' then ['\\', 'f']
  else if c = '\x08' then ['\\', 'b']
  else if ' ' ≤ c && c ≤ '~' then [c]
  else escapeCharacter c.toNat

def reportText (s : String) : String :=
  String.ofList ('"' :: s.toList.flatMap reportChar ++ ['"'])

def newLine (depth : Nat) : String :=
  "\n" ++ "".pushn ' ' (2 * depth)

mutual

def reportAt (depth : Nat) : Value → String
  | .null => "null"
  | .bool b => if b then "true" else "false"
  | .int n => toString n
  | .real mantissa places => Value.showReal mantissa places
  | .text s => reportText s
  | .list items =>
    if items.isEmpty then "[]"
    else "[" ++ reportItems (depth + 1) items ++ newLine depth ++ "]"
  | .object members =>
    if members.isEmpty then "\x7b\x7d"
    else "\x7b" ++ reportMembers (depth + 1) members ++ newLine depth ++ "\x7d"

def reportItems (depth : Nat) : List Value → String
  | [] => ""
  | [v] => newLine depth ++ reportAt depth v
  | v :: vs => newLine depth ++ reportAt depth v ++ "," ++ reportItems depth vs

def reportMembers (depth : Nat) : List (String × Value) → String
  | [] => ""
  | [(key, v)] => newLine depth ++ reportText key ++ ": " ++ reportAt depth v
  | (key, v) :: members =>
    newLine depth ++ reportText key ++ ": " ++ reportAt depth v ++ ","
      ++ reportMembers depth members

end

def report (v : Value) : String :=
  reportAt 0 v ++ "\n"

end Depot.CommandLine
