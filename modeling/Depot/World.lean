import Depot.Checksum.Sha256
import Depot.Cloud.Bucket
import Depot.Cloud.Call
import Depot.Files.Tree
import Depot.Tracing.Setup
import Depot.Tracing.Span

/-!
This module contains what operations act on: files, a bucket, and the records that operations leave
of what they do. An operation that fails leaves what it did before.
-/

namespace Depot

structure World where
  tree : Files.Tree
  bucket : Cloud.Bucket := {}
  environment : Environment := []
  missingExtras : List String := []
  fault : Option (String × Failure) := none
  debug : Bool := false
  provider : Option Tracing.Provider := none
  /-- Whether there is an exporter that keeps spans in memory. -/
  exporter : Bool := false
  digest : String → String := Checksum.sha256OfText
  journal : List LogLine := []
  spans : List Tracing.Span := []
  calls : List Cloud.Call := []
  streamClosed : Option Bool := none
  clients : List Cloud.ClientRequest := []

abbrev Action := ExceptT Failure (StateM World)

namespace Action

/-- Performs an action: its result, and the world after it. -/
def perform {α : Type} (act : Action α) (world : World) : Except Failure α × World :=
  act.run.run world

def fail {α : Type} (reason : Reason) : Action α :=
  throw { reason }

def attempt {α : Type} (act : Action α) : Action (Except Failure α) :=
  fun world => (fun (result, world) => (.ok result, world)) (act.perform world)

def ofResult {α : Type} (result : Except Failure α) : Action α :=
  fun world => (result, world)

/-- Performs `last` after an action, whether it fails or not. -/
def andFinally {α : Type} (act : Action α) (last : Action Unit) : Action α := do
  let result ← act.attempt
  last
  ofResult result

end Action

/-- Leaves a line in the journal, if one is kept. -/
def note (level : Level) (topic : Topic) (message : String) : Action Unit :=
  modify fun world =>
    if world.debug then { world with journal := world.journal ++ [⟨level, topic, message⟩] }
    else world

namespace World

def process (world : World) : Tracing.Process :=
  ⟨world.provider, world.exporter⟩

def withProcess (world : World) (process : Tracing.Process) : World :=
  { world with provider := process.provider, exporter := process.exporter }

end World

def configureTracing (create : Tracing.ResourceMaker) : Action Bool := do
  let world ← get
  let outcome := Tracing.configure create world.environment world.process
  set (world.withProcess outcome.process)
  for line in outcome.lines do
    note line.level line.topic line.message
  Action.ofResult outcome.result

namespace World

def records (world : World) : Bool :=
  Tracing.isEnabled world.environment && world.provider.any (·.capture)

end World

/--
An operation that leaves a span, if spans are recorded. The attributes that tell of its result are
given; a result may also be that of an operation that has failed.
-/
def traced {α : Type} (operation : Tracing.Operation) (backend : String) (name : Option String)
    (summarize : α → Except Failure (List Tracing.Attribute)) (act : Action α) : Action α := do
  let world ← get
  if world.records then
    let result ← act.attempt
    let opening := Tracing.openingAttributes world.digest backend name
    let span := Tracing.Span.of operation opening (Tracing.heard (result.bind summarize))
    modify fun world => { world with spans := world.spans ++ [span] }
    Action.ofResult result
  else act

end Depot
