import Depot.Value

/-!
This module contains the errors that providers of cloud storage raise, and errors of classes that
stores know nothing about.
-/

namespace Depot

inductive ProviderError where
  /-- A request was answered with an error: the response, and the text that was made of it. -/
  | response (response : Value) (text : String)
  | status (name message : String)
deriving Repr

namespace ProviderError

def statusNumbers : List (String × Nat) := [
  ("MovedPermanently", 301), ("NotModified", 304), ("TemporaryRedirect", 307),
  ("ResumeIncomplete", 308), ("BadRequest", 400), ("InvalidArgument", 400),
  ("FailedPrecondition", 400), ("OutOfRange", 400), ("Unauthorized", 401),
  ("Unauthenticated", 401), ("Forbidden", 403), ("PermissionDenied", 403), ("NotFound", 404),
  ("MethodNotAllowed", 405), ("Conflict", 409), ("AlreadyExists", 409), ("Aborted", 409),
  ("LengthRequired", 411), ("PreconditionFailed", 412), ("RequestRangeNotSatisfiable", 416),
  ("TooManyRequests", 429), ("ResourceExhausted", 429), ("Cancelled", 499),
  ("InternalServerError", 500), ("Unknown", 500), ("DataLoss", 500),
  ("MethodNotImplemented", 501), ("BadGateway", 502), ("ServiceUnavailable", 503),
  ("GatewayTimeout", 504), ("DeadlineExceeded", 504)]

/-- The members of a part of a response, if it has none that is no object. -/
def partOf? (name : String) : Value → Option (List (String × Value))
  | .object members =>
    match Value.member? name members with
    | none => some []
    | some (.object members) => some members
    | some _ => none
  | _ => none

/-- How often a request was tried again, if the metadata say that it was often enough. -/
def retries (metadata : List (String × Value)) : String :=
  match Value.member? "MaxAttemptsReached" metadata, Value.member? "RetryAttempts" metadata with
  | some reached, some attempts =>
    if reached.isGiven then " (reached max retries: " ++ attempts.render ++ ")" else ""
  | _, _ => ""

def detail (name : String) (error : List (String × Value)) : String :=
  match Value.member? name error with
  | some v => v.render
  | none => "Unknown"

def textOf (error metadata : List (String × Value)) (operation : String) : String :=
  "An error occurred (" ++ detail "Code" error ++ ") when calling the " ++ operation ++ " operation"
    ++ retries metadata ++ ": " ++ detail "Message" error

/-- The error that is made of a response, if one can be made of it. -/
def ofResponse? (response : Value) (operation : String) : Option ProviderError := do
  let metadata ← partOf? "ResponseMetadata" response
  let error ← partOf? "Error" response
  return .response response (textOf error metadata operation)

def kindName : ProviderError → String
  | response _ _ => "ClientError"
  | status name _ => name

def render : ProviderError → String
  | response _ text => text
  | status name message =>
    let number :=
      match statusNumbers.lookup name with
      | some n => toString n
      | none => "None"
    number ++ " " ++ message

end ProviderError

structure OtherError where
  kind : String
  message : String
  code : Option Value := none
  status : Option Value := none
  /-- Whether it ends the program: no handler of errors takes it. -/
  interrupts : Bool := false
deriving Repr

end Depot
