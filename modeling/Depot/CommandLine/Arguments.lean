import Depot.CommandLine.Grammar
import Depot.Codec.Scheme
import Depot.Config
import Depot.Store.Operations

/-!
This module contains the arguments of the program: what its command line says, and the grammars it
is read by.
-/

namespace Depot.CommandLine

inductive Command where
  | list (under start : String) (limit : Int)
  | print (name : String)
  /-- Stores a local file, or else the input. If it is pushed, the file is removed. -/
  | put (name : String) (file : Option String) (push : Bool)
  | remove (name : String)
  | askExistence (name : String)
  | showUrl (name : String)
deriving DecidableEq, Repr

structure Arguments where
  url : Option String := none
  extension : Option String := none
  compression : Option String := none
  overwrite : Bool := false
  /-- There may be no command; then nothing is done. -/
  command : Option Command := none
deriving DecidableEq, Repr

def helpOption : OptionSpec := ⟨"--help", .help⟩

def helpLine (column : Nat) : String :=
  let lead := "  -h, --help"
  lead ++ "".pushn ' ' (column - lead.length) ++ "show this help message and exit"

def compressionNames : List String :=
  [Codec.Scheme.none, .gzip, .zstd].map Codec.Scheme.name

def choice (words : List String) : String :=
  "\x7b" ++ ",".intercalate words ++ "\x7d"

def commandNames : List (String × String) := [
  ("ls", "List object names"),
  ("cat", "Print an object's body"),
  ("put", "Store a file or stdin"),
  ("rm", "Delete an object"),
  ("exists", "Check whether an object exists"),
  ("url", "Print an object's URL")]

def commandLine (name explanation : String) : String :=
  "    " ++ name ++ "".pushn ' ' (20 - name.length) ++ explanation

def mainGrammar : Grammar where
  program := "objstore"
  options := [
    helpOption,
    ⟨"--url", .value fun _ => true⟩,
    ⟨"--extension", .value fun _ => true⟩,
    ⟨"--compression", .value compressionNames.contains⟩,
    ⟨"--overwrite", .flag⟩]
  positionals := [⟨"command", .rest⟩]
  usage := [
    "usage: objstore [-h] [--url URL] [--extension EXT]",
    "                [--compression " ++ choice compressionNames ++ "] [--overwrite]",
    "                " ++ choice (commandNames.map Prod.fst) ++ " ..."]
  details := [
    "",
    "objstore - backend-agnostic object storage CLI",
    "",
    "positional arguments:",
    "  " ++ choice (commandNames.map Prod.fst),
    "                        Commands"]
    ++ commandNames.map (fun (name, explanation) => commandLine name explanation)
    ++ [
    "",
    "options:",
    helpLine 24,
    "  --url URL             Store base location (default: $" ++ Config.urlVariable ++ ")",
    "  --extension EXT       Suffix appended to object names (e.g. .json)",
    "  --compression " ++ choice compressionNames,
    "                        Object body compression",
    "  --overwrite           Allow writes to replace existing objects"]

def listGrammar : Grammar where
  program := "objstore ls"
  options := [
    helpOption,
    ⟨"--limit", .value fun s => (Text.readInt? s).isSome⟩,
    ⟨"--start", .value fun _ => true⟩]
  positionals := [⟨"prefix", .optional⟩]
  usage := ["usage: objstore ls [-h] [--limit LIMIT] [--start NAME] [prefix]"]
  details := [
    "",
    "positional arguments:",
    "  prefix         Listing prefix",
    "",
    "options:",
    helpLine 17,
    "  --limit LIMIT  Maximum names to print (default: " ++ toString Store.defaultLimit ++ ")",
    "  --start NAME   Resume the listing at NAME (inclusive)"]

def putGrammar : Grammar where
  program := "objstore put"
  options := [helpOption, ⟨"--push", .flag⟩]
  positionals := [⟨"name", .one⟩, ⟨"file", .optional⟩]
  usage := ["usage: objstore put [-h] [--push] name [file]"]
  details := [
    "",
    "positional arguments:",
    "  name",
    "  file        Local file (default: stdin)",
    "",
    "options:",
    helpLine 14,
    "  --push      Delete FILE after it was stored"]

/-- The grammar of a command that takes only a name. -/
def nameGrammar (command : String) : Grammar where
  program := "objstore " ++ command
  options := [helpOption]
  positionals := [⟨"name", .one⟩]
  usage := ["usage: objstore " ++ command ++ " [-h] name"]
  details := [
    "",
    "positional arguments:",
    "  name",
    "",
    "options:",
    helpLine 14]

def grammarOf (command : String) : Grammar :=
  if command = "ls" then listGrammar
  else if command = "put" then putGrammar
  else nameGrammar command

def commandOf (command : String) (r : Reading) : Command :=
  let name := (r.words "name").headD ""
  match command with
  | "ls" =>
    .list ((r.words "prefix").headD "") ((r.value? "--start").getD "")
      (((r.value? "--limit").bind Text.readInt?).getD Store.defaultLimit)
  | "cat" => .print name
  | "put" => .put name (r.words "file").head? (r.hasFlag "--push")
  | "rm" => .remove name
  | "exists" => .askExistence name
  | _ => .showUrl name

/-- Reads the words of a command: the command, and the words that have no part in it. -/
def readCommand : List String → Except Refusal (Option Command × List String)
  | [] => .ok (none, [])
  | command :: words =>
    if (commandNames.lookup command).isSome then do
      let r ← (grammarOf command).read words
      return (some (commandOf command r), r.extras)
    else
      .error (mainGrammar.misuse ("argument command: invalid choice: " ++ Text.quoted command
        ++ " (choose from "
        ++ ", ".intercalate (commandNames.map fun (name, _) => Text.quoted name) ++ ")"))

def Arguments.parse (words : List String) : Except Refusal Arguments := do
  let r ← mainGrammar.read words
  let (command, extras) ← readCommand (r.words "command")
  match r.extras ++ extras with
  | [] =>
    return {
      url := r.value? "--url"
      extension := r.value? "--extension"
      compression := r.value? "--compression"
      overwrite := r.hasFlag "--overwrite"
      command }
  | extras => throw (mainGrammar.misuse ("unrecognized arguments: " ++ " ".intercalate extras))

end Depot.CommandLine
