import Depot.Failure
import Depot.Journal
import Depot.Tracing.Settings

/-!
This module contains the setup of tracing. It succeeds at most once in a process; what it has
installed stays.
-/

namespace Depot.Tracing

structure Provider where
  resource : List (String × String)
  capture : Bool
deriving DecidableEq, Repr

/-- How the tracing package makes the attributes of a resource of those that it is given. -/
abbrev ResourceMaker := List (String × String) → List (String × String)

/-- The attributes that a provider asks for. What an environment adds takes precedence. -/
def Settings.attributes (settings : Settings) : List (String × String) :=
  lastValues (("service.name", settings.serviceName) :: settings.resource)

/-- The package that exports spans over the network. It is not installed. -/
def exporterPackage : String := "opentelemetry.exporter"

/-- What a process keeps of the setup of tracing. -/
structure Process where
  provider : Option Provider := none
  /-- Whether there is an exporter that keeps spans in memory. -/
  exporter : Bool := false
deriving DecidableEq, Repr

abbrev Setup := ExceptT Reason (StateM Process)

/-- Makes the processor that spans go to, and tells whether it keeps them in memory. -/
def makeProcessor (settings : Settings) : Setup Bool :=
  if settings.capture then do
    modify fun process => { process with exporter := true }
    return true
  else if settings.exporter = "console" then return false
  else throw (.missingPackage exporterPackage)

/-- Installs a provider, once everything that it needs is made. -/
def install (create : ResourceMaker) (settings : Settings) : Setup Unit := do
  let resource := create settings.attributes
  let capture ← makeProcessor settings
  modify fun process => { process with provider := some { resource, capture } }

def requiredVariable : String := "OBJSTORE_REQUIRE_OTEL"

structure Outcome where
  result : Except Failure Bool
  process : Process
  lines : List LogLine

/-- Sets up tracing, if the environment turns it on and no earlier setup has succeeded. -/
def configure (create : ResourceMaker) (env : Environment) (process : Process) : Outcome :=
  if !isEnabled env then
    { result := .ok false, process
      lines := [⟨.debug, .tracing,
        "OpenTelemetry tracing disabled (" ++ enabledVariable ++ " not set)"⟩] }
  else if process.provider.isSome then { result := .ok true, process, lines := [] }
  else
    let settings := Settings.ofEnvironment env
    match (install create settings).run.run process with
    | (.ok (), process) =>
      let exporter := if settings.capture then "in-memory" else settings.exporter
      { result := .ok true, process
        lines := [⟨.info, .tracing, "OpenTelemetry tracing configured: service="
          ++ settings.serviceName ++ " exporter=" ++ exporter⟩] }
    | (.error reason, process) =>
      { result :=
          if env.flag requiredVariable false then
            .error { reason := .tracing reason.render, cause := some reason }
          else .ok false
        process
        lines := [⟨.error, .tracing,
          "Failed to configure OpenTelemetry tracing: " ++ reason.render⟩] }

/-- The text of a trace identifier, if both identifiers are valid. -/
def traceId? (trace span : Int) : Option String :=
  if 0 < trace ∧ trace.toNat < 1 <<< 128 ∧ 0 < span ∧ span.toNat < 1 <<< 64 then
    some (String.ofList (Text.hexPadded 32 trace.toNat))
  else none

end Depot.Tracing
