import Depot.CommandLine.Arguments
import Depot.CommandLine.Report
import Depot.Store.Construction

/-!
This module contains the program: what it does for a command line, what it prints, and the status
it ends with.
-/

namespace Depot.CommandLine

structure Output where
  status : Nat := 0
  printed : ByteArray := .empty
  remarks : String := ""
  refused : Bool := false
  /-- The interrupt that has ended the program, which reports nothing of it. -/
  interrupt : Option Failure := none

def Output.ofText (s : String) : Output :=
  { printed := s.toUTF8 }

def errorKind (reason : Reason) : String × Nat :=
  match reason with
  | .config _ => ("INVALID_CONFIG", 2)
  | .storage e =>
    match e.kind with
    | .notFound => ("NOT_FOUND", 2)
    | .unsupportedScheme _ => ("INVALID_ARGUMENT", 2)
    | _ => ("STORAGE_ERROR", 1)
  | reason =>
    if reason.kindName = "FileNotFoundError" then ("INVALID_ARGUMENT", 2)
    else ("INTERNAL_ERROR", 1)

def Output.ofFailure (printed : ByteArray) (failure : Failure) : Output :=
  if failure.interrupts then { printed, interrupt := some failure }
  else
    let (code, status) := errorKind failure.reason
    let error := Value.object [("code", .text code), ("message", .text failure.reason.render)]
    { status, printed := printed ++ (report (.object [("error", error)])).toUTF8 }

def Output.ofRefusal : Refusal → Output
  | .help text => { Output.ofText text with refused := true }
  | .misuse text => { status := 2, remarks := text, refused := true }

def Arguments.config (arguments : Arguments) (env : Environment) : Except Failure Config :=
  let url := arguments.url.getD ""
  Config.ofTexts (if url = "" then env.get Config.urlVariable else url)
    (arguments.extension.getD (env.get Config.extensionVariable))
    (arguments.compression.getD (env.get Config.compressionVariable))
    (arguments.overwrite || env.flag Config.overwriteVariable false)

def printedPiece : Nat := 65536

def listNames (store : Store) (under start : String) (limit : Int) : Action Output := do
  let names ←
    if start = "" then store.list under limit (some under)
    else store.collectFrom under start limit
  return .ofText (Grammar.textOf names)

def printBody (store : Store) (name : String) : Action Output := do
  let (pieces, failure) ← store.readPieces name printedPiece
  let printed := pieces.foldl (· ++ ·) .empty
  match failure with
  | some failure => return .ofFailure printed failure
  | none => return { printed }

def readNamed (file : String) : Action ByteArray := do
  let p := Files.Pathname.ofText file
  if p.holdsZero then Action.fail (.malformed .zeroByte)
  else
    match (← get).tree.content p with
    | .ok bytes => return bytes
    | .error code => Store.Files.fail { code, path := some file }

def putBytes (store : Store) (input : ByteArray) (name file : String) : Action Output := do
  let bytes ← if file = "" then pure input else readNamed file
  let written ← store.write name (Source.ofBytes bytes)
  return .ofText (report (.object [("name", .text name),
    ("url", .text (store.naming.url name)), ("written", .bool written)]))

def pushFile (store : Store) (name file : String) : Action Output := do
  if file = "" then return { status := 2, remarks := "put --push requires FILE\n" }
  else
    store.push file name (some file)
    return .ofText (report (.object [("name", .text name), ("pushed", .bool true),
      ("url", .text (store.naming.url name))]))

def Command.run (command : Command) (store : Store) (input : ByteArray) : Action Output := do
  match command with
  | .list under start limit => listNames store under start limit
  | .print name => printBody store name
  | .put name file true => pushFile store name (file.getD "")
  | .put name file false => putBytes store input name (file.getD "")
  | .remove name =>
    store.delete name
    return {}
  | .askExistence name =>
    let found ← store.contains name
    let printed := report (.object [("exists", .bool found), ("name", .text name)])
    return { Output.ofText printed with status := if found then 0 else 2 }
  | .showUrl name => return .ofText (store.naming.url name ++ "\n")

def Arguments.run (create : Tracing.ResourceMaker) (arguments : Arguments) (command : Command)
    (input : ByteArray) : Action Output := do
  let _ ← configureTracing create
  let config ← Action.ofResult (arguments.config (← get).environment)
  command.run (← Store.ofConfig config {}) input

def run (create : Tracing.ResourceMaker) (words : List String) (input : ByteArray) (world : World) :
    Output × World :=
  match Arguments.parse words with
  | .error refusal => (.ofRefusal refusal, world)
  | .ok arguments =>
    match arguments.command with
    | none => (.ofText mainGrammar.help, world)
    | some command =>
      match (arguments.run create command input).perform world with
      | (.ok output, world) => (output, world)
      | (.error failure, world) => (.ofFailure .empty failure, world)

end Depot.CommandLine
