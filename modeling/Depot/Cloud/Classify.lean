import Depot.Failure

/-!
This module contains the meaning of the errors of providers: whether an object was not there, or
was there although it must not be.
-/

namespace Depot.Cloud

def noMember (v : Value) : Failure :=
  { reason := .noMember v.kindName "get" }

/-- The member of a value. Nothing is a member of a value that is not given. -/
def member (name : String) (v : Value) : Except Failure Value :=
  if !v.isGiven then .ok .null
  else
    match v with
    | .object members => .ok ((Value.member? name members).getD .null)
    | v => .error (noMember v)

def errorCode (response : Value) : Except Failure String := do
  let error ← member "Error" response
  let code ← member "Code" error
  return if code.isGiven then code.render else ""

def httpStatus (response : Value) : Except Failure Value := do
  member "HTTPStatusCode" (← member "ResponseMetadata" response)

namespace S3

/-- The codes of errors that mean that an object is not there. -/
def notFoundCodes : List String :=
  ["404", "NoSuchKey", "NotFound"]

/-- Whether a failure means that the object is not there. -/
def isNotFound (failure : Failure) : Except Failure Bool :=
  match failure.reason with
  | .provider (.response response _) =>
    return notFoundCodes.contains (← errorCode response)
  | _ => .ok false

def collides (failure : Failure) : Except Failure Bool :=
  match failure.reason with
  | .provider (.response response _) => do
    if (← errorCode response) = "PreconditionFailed" then return true
    return (← httpStatus response).isNumber 412
  | _ => .ok false

end S3

namespace Gcs

/-- Whether a failure means that the object is not there. -/
def isNotFound (failure : Failure) : Bool :=
  match failure.reason with
  | .provider (.status name _) => name = "NotFound"
  | _ => false

def collides (failure : Failure) : Bool :=
  match failure.reason with
  | .provider (.status name _) =>
    name = "PreconditionFailed" || ProviderError.statusNumbers.lookup name = some 412
  | .other e => e.code.any (·.isNumber 412) || e.status.any (·.isNumber 412)
  | _ => false

end Gcs

end Depot.Cloud
