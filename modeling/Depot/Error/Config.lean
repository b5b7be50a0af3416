import Depot.Value

/-!
This module contains what can be wrong with the description of a store.
-/

namespace Depot

inductive ProblemKind where
  | missing
  | unknownField
  | frozen
  | notText
  | tooShort
  | notBool
  | unreadableBool
  | rule (message : String)
deriving DecidableEq, Repr

namespace ProblemKind

def name : ProblemKind → String
  | missing => "missing"
  | unknownField => "extra_forbidden"
  | frozen => "frozen_instance"
  | notText => "string_type"
  | tooShort => "string_too_short"
  | notBool => "bool_type"
  | unreadableBool => "bool_parsing"
  | rule _ => "value_error"

def message : ProblemKind → String
  | missing => "Field required"
  | unknownField => "Extra inputs are not permitted"
  | frozen => "Instance is frozen"
  | notText => "Input should be a valid string"
  | tooShort => "String should have at least 1 character"
  | notBool => "Input should be a valid boolean"
  | unreadableBool => "Input should be a valid boolean, unable to interpret input"
  | rule message => "Value error, " ++ message

end ProblemKind

structure Problem where
  field : String
  kind : ProblemKind
  input : Value

namespace Problem

/-- The problem in one line: the field, the kind, the message. -/
def brief (p : Problem) : String :=
  p.field ++ "|" ++ p.kind.name ++ "|" ++ p.kind.message

/-- The longest start of a text that has at most `limit` bytes. -/
def startWithin : (limit : Nat) → List Char → List Char
  | _, [] => []
  | limit, c :: cs => if c.utf8Size ≤ limit then c :: startWithin (limit - c.utf8Size) cs else []

/-- The literal of a value, with the middle left out if it is longer than fifty bytes. -/
def excerpt (v : Value) : String :=
  let literal := v.literal
  if literal.utf8ByteSize ≤ 50 then literal
  else
    let start := startWithin 25 literal.toList
    let stop := (startWithin 24 literal.toList.reverse).reverse
    String.ofList start ++ "..." ++ String.ofList stop

def helpPage (kind : ProblemKind) : String :=
  "https" ++ "://" ++ "errors.pydantic.dev/2.14/v/" ++ kind.name

def lines (p : Problem) : List String := [
  p.field,
  "  " ++ p.kind.message ++ " [type=" ++ p.kind.name ++ ", input_value=" ++ excerpt p.input
    ++ ", input_type=" ++ p.input.kindName ++ "]",
  "    For further information visit " ++ helpPage p.kind]

def report (problems : List Problem) : String :=
  let count := problems.length
  let noun := if count = 1 then "error" else "errors"
  let heading := toString count ++ " validation " ++ noun ++ " for StoreConfig"
  "\n".intercalate (heading :: problems.flatMap lines)

end Problem

end Depot
