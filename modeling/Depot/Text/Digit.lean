import Depot.Text.Blank

/-!
This module contains the decimal digits of all scripts, and whole numbers written with them.
-/

namespace Depot.Text

/-- The code points of the zeros; the digits one to nine follow each. -/
def zeros : Array Nat := #[
  0x30, 0x660, 0x6f0, 0x7c0, 0x966, 0x9e6, 0xa66, 0xae6, 0xb66, 0xbe6,
  0xc66, 0xce6, 0xd66, 0xde6, 0xe50, 0xed0, 0xf20, 0x1040, 0x1090, 0x17e0,
  0x1810, 0x1946, 0x19d0, 0x1a80, 0x1a90, 0x1b50, 0x1bb0, 0x1c40, 0x1c50, 0xa620,
  0xa8d0, 0xa900, 0xa9d0, 0xa9f0, 0xaa50, 0xabf0, 0xff10, 0x104a0, 0x10d30, 0x11066,
  0x110f0, 0x11136, 0x111d0, 0x112f0, 0x11450, 0x114d0, 0x11650, 0x116c0, 0x11730, 0x118e0,
  0x11950, 0x11c50, 0x11d50, 0x11da0, 0x16a60, 0x16ac0, 0x16b50, 0x1d7ce, 0x1d7d8, 0x1d7e2,
  0x1d7ec, 0x1d7f6, 0x1e140, 0x1e2f0, 0x1e950, 0x1fbf0]

def digitValue? (c : Char) : Option Nat :=
  (zeros.find? fun first => first ≤ c.toNat && c.toNat < first + 10).map (c.toNat - ·)

def readDigits? (value count : Nat) : List Char → Option (Nat × Nat)
  | [] => if count = 0 then none else some (value, count)
  | '_' :: c :: rest =>
    match digitValue? c with
    | some d => if count = 0 then none else readDigits? (value * 10 + d) (count + 1) rest
    | none => none
  | c :: rest =>
    match digitValue? c with
    | some d => readDigits? (value * 10 + d) (count + 1) rest
    | none => none

def maxDigits : Nat := 4300

/-- The blanks allowed around a number: of ASCII, the information separators are not among them. -/
def isNumberBlank (c : Char) : Bool :=
  isBlank c && !(0x1c ≤ c.toNat && c.toNat ≤ 0x1f)

/-- A whole number: blanks, a sign, digits with single underscores between them, blanks. -/
def readInt? (s : String) : Option Int :=
  let (negative, digits) :=
    match trim isNumberBlank s.toList with
    | '-' :: rest => (true, rest)
    | '+' :: rest => (false, rest)
    | rest => (false, rest)
  match readDigits? 0 0 digits with
  | some (value, count) =>
    if maxDigits < count then none
    else some (if negative then -Int.ofNat value else Int.ofNat value)
  | none => none

end Depot.Text
