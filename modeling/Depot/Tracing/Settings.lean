import Depot.Environment

/-!
This module contains the settings of tracing, as environments describe them.
-/

namespace Depot.Tracing

structure Settings where
  serviceName : String
  exporter : String
  endpoint : Option String
  protocol : String
  /-- Further attributes of the traced program; of two with one key the last counts. -/
  resource : List (String × String)
  capture : Bool
deriving DecidableEq, Repr

/-- The attribute that an item describes, if it holds an equals sign after something. -/
def readAttribute? (item : List Char) : Option (String × String) :=
  match Text.cut '=' item with
  | (key, some value) =>
    let key := Text.strip (String.ofList key)
    if key = "" then none else some (key, Text.strip (String.ofList value))
  | (_, none) => none

/-- The attributes in a text, with commas between them. What describes none is left out. -/
def readAttributes (text : String) : List (String × String) :=
  (Text.splitOn ',' text.toList).filterMap readAttribute?

/-- The value of a key; of several the last. -/
def lastValue? (key : String) (attributes : List (String × String)) : Option String :=
  attributes.reverse.lookup key

def distinctKeys (attributes : List (String × String)) : List String :=
  (attributes.map Prod.fst).eraseDups

def lastValues (attributes : List (String × String)) : List (String × String) :=
  (distinctKeys attributes).map fun key => (key, (lastValue? key attributes).getD "")

def enabledVariable : String := "OBJSTORE_OTEL_ENABLED"

def isEnabled (env : Environment) : Bool :=
  env.flag enabledVariable false

def Settings.ofEnvironment (env : Environment) : Settings where
  serviceName := env.word "OBJSTORE_OTEL_SERVICE_NAME" "objstore"
  exporter := Text.lower (env.word "OBJSTORE_OTEL_EXPORTER" "otlp")
  endpoint :=
    let endpoint := env.word "OBJSTORE_OTEL_EXPORTER_OTLP_ENDPOINT" ""
    if endpoint = "" then none else some endpoint
  protocol := Text.lower (env.word "OBJSTORE_OTEL_EXPORTER_OTLP_PROTOCOL" "grpc")
  resource := lastValues (readAttributes (env.get "OBJSTORE_OTEL_RESOURCE_ATTRS"))
  capture := env.flag "OBJSTORE_OTEL_TEST_CAPTURE" false

end Depot.Tracing
