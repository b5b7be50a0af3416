import Depot.Text.Quoted

/-!
This module contains values whose kind is known only when they are looked at: configuration given
by a caller, and what a provider says about an error.
-/

namespace Depot

inductive Value where
  | null
  | bool (b : Bool)
  | int (n : Int)
  /-- The number `mantissa / 10 ^ places`, written with a decimal point. -/
  | real (mantissa : Int) (places : Nat)
  | text (s : String)
  | list (items : List Value)
  | object (members : List (String × Value))
deriving Repr, Inhabited

namespace Value

def kindName : Value → String
  | null => "NoneType"
  | bool _ => "bool"
  | int _ => "int"
  | real _ _ => "float"
  | text _ => "str"
  | list _ => "list"
  | object _ => "dict"

/-- Whether a value counts as given: nothing, zero, and what is empty do not. -/
def isGiven : Value → Bool
  | null => false
  | bool b => b
  | int n => n ≠ 0
  | real mantissa _ => mantissa ≠ 0
  | text s => s ≠ ""
  | list items => !items.isEmpty
  | object members => !members.isEmpty

def isNumber (v : Value) (n : Int) : Bool :=
  match v with
  | int m => m = n
  | real mantissa places => mantissa = n * Int.pow 10 places
  | _ => false

def member? (name : String) : List (String × Value) → Option Value
  | [] => none
  | (key, v) :: members => if key = name then some v else member? name members

def showReal (mantissa : Int) (places : Nat) : String :=
  let digits := toString mantissa.natAbs
  let padded := List.replicate (places + 1 - digits.length) '0' ++ digits.toList
  let whole := padded.take (padded.length - places)
  let rest := padded.drop (padded.length - places)
  let sign := if mantissa < 0 then "-" else ""
  sign ++ String.ofList whole ++ "." ++ (if rest = [] then "0" else String.ofList rest)

mutual

/-- The text of a value inside another one: texts are quoted there. -/
def literal : Value → String
  | null => "None"
  | bool true => "True"
  | bool false => "False"
  | int n => toString n
  | real mantissa places => showReal mantissa places
  | text s => Text.quoted s
  | list items => "[" ++ literals items ++ "]"
  | object members => "\x7b" ++ memberLiterals members ++ "\x7d"

def literals : List Value → String
  | [] => ""
  | [v] => literal v
  | v :: vs => literal v ++ ", " ++ literals vs

def memberLiterals : List (String × Value) → String
  | [] => ""
  | [(key, v)] => Text.quoted key ++ ": " ++ literal v
  | (key, v) :: members => Text.quoted key ++ ": " ++ literal v ++ ", " ++ memberLiterals members

end

def render : Value → String
  | text s => s
  | v => literal v

end Value

end Depot
