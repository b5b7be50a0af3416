import Depot.Failure

/-!
This module contains the spans that traced operations leave. The attributes tell the name of an
object by its hash alone.
-/

namespace Depot.Tracing

inductive Operation where
  | writeObject
  | openObject
  | deleteObject
  | askExistence
  | listNames
  | walkNames
  | pushFile
deriving DecidableEq, Repr

def Operation.spanName (operation : Operation) : String :=
  "objstore.object_store." ++
    match operation with
    | writeObject => "write"
    | openObject => "open"
    | deleteObject => "delete"
    | askExistence => "exists"
    | listNames => "list"
    | walkNames => "walk_from"
    | pushFile => "push_local_file"

inductive AttributeValue where
  | text (s : String)
  | flag (b : Bool)
  | count (n : Nat)
deriving DecidableEq, Repr

abbrev Attribute := String × AttributeValue

structure Event where
  kind : String
  message : String
deriving DecidableEq, Repr

structure Span where
  operation : Operation
  attributes : List Attribute
  /-- The text beside the error status, if a failure left the span. -/
  error : Option String
  events : List Event
deriving DecidableEq, Repr

/--
The attributes that are known before an operation starts. `digest` tells the hash of a name, which
every name has: names are text that can be encoded.
-/
def openingAttributes (digest : String → String) (backend : String) (name : Option String) :
    List Attribute :=
  ("storage.backend", .text backend) ::
    (name.map fun name => ("objstore.object_name_sha256", AttributeValue.text (digest name))).toList

def failureAttributes (failure : Failure) : List Attribute :=
  [("error", .flag true), ("error.type", .text failure.reason.kindName)]

def Span.ofReturn (operation : Operation) (opening summary : List Attribute) : Span :=
  { operation, attributes := opening ++ summary, error := none, events := [] }

def Span.ofFailure (operation : Operation) (opening : List Attribute) (failure : Failure) : Span :=
  let kind := failure.reason.kindName
  let message := failure.reason.render
  { operation
    attributes := opening ++ failureAttributes failure
    error := some (kind ++ ": " ++ message)
    events := [⟨kind, message⟩] }

/-- How an operation ends, as far as its span is told: of an interrupt it is told nothing. -/
def heard (outcome : Except Failure (List Attribute)) : Except Failure (List Attribute) :=
  match outcome with
  | .ok summary => .ok summary
  | .error failure => if failure.interrupts then .ok [] else .error failure

def Span.of (operation : Operation) (opening : List Attribute)
    (outcome : Except Failure (List Attribute)) : Span :=
  match outcome with
  | .ok summary => ofReturn operation opening summary
  | .error failure => ofFailure operation opening failure

end Depot.Tracing
