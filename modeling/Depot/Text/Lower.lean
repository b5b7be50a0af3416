import Depot.Text.Ranges
import Depot.Text.CaseTable

/-!
This module contains the lower-case form of a text. Every character is mapped alone, except the
Greek capital sigma, whose form depends on whether it ends a word.
-/

namespace Depot.Text

/-- The distance of the run that holds `code`, if one does. -/
def runDistance? (runs : Array (Nat × Nat × Nat × Nat)) (code : Nat) : Option Nat :=
  (runs.find? fun (first, last, stride, _) =>
    first ≤ code && code ≤ last && (code - first) % stride == 0).map fun (_, _, _, d) => d

def lowerChar (c : Char) : List Char :=
  if c.toNat < 0x80 then
    [c.toLower]
  else if c.toNat = 0x130 then
    ['i', Char.ofNat 0x307]
  else
    match runDistance? lowerAbove c.toNat with
    | some d => [Char.ofNat (c.toNat + d)]
    | none =>
      match runDistance? lowerBelow c.toNat with
      | some d => [Char.ofNat (c.toNat - d)]
      | none => [c]

/-- Whether the nearest character that counts for word ends is cased. -/
def meetsCased (cs : List Char) : Bool :=
  match cs.dropWhile fun c => inRanges caseIgnorable c.toNat with
  | [] => false
  | c :: _ => inRanges cased c.toNat

/-- A capital sigma ends a word if a cased character precedes it and none follows. -/
def lowerSigma (before after : List Char) : Char :=
  if meetsCased before && !meetsCased after then Char.ofNat 0x3c2 else Char.ofNat 0x3c3

def lowerChars (cs : List Char) : List Char :=
  go [] cs
where
  /-- `before` holds what precedes, nearest character first. -/
  go (before : List Char) : List Char → List Char
    | [] => []
    | c :: rest =>
      (if c.toNat = 0x3a3 then [lowerSigma before rest] else lowerChar c) ++ go (c :: before) rest

def lower (s : String) : String :=
  String.ofList (lowerChars s.toList)

end Depot.Text
