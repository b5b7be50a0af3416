import Depot.Codec.Scheme
import Depot.Environment
import Depot.Failure

/-!
This module contains descriptions of stores: where a store is and how it writes its objects. A
description that was accepted is in canonical form and never changes.
-/

namespace Depot

structure Config where
  url : String
  extension : String := ""
  compression : Codec.Scheme := .none
  overwrite : Bool := false
deriving DecidableEq, Repr

namespace Config

abbrev Check (α : Type) := Except ProblemKind α

def readText : Value → Check String
  | .text s => .ok s
  | _ => .error .notText

/-- The words that stand for booleans, whatever their case. -/
def readWord (s : String) : Check Bool :=
  let word := s.map Char.toLower
  if ["1", "t", "y", "on", "yes", "true"].contains word then .ok true
  else if ["0", "f", "n", "off", "no", "false"].contains word then .ok false
  else .error .unreadableBool

/-- The numbers that stand for booleans are zero and one; larger ones are no candidates at all. -/
def readNumber (n : Int) : Check Bool :=
  if n = 0 then .ok false
  else if n = 1 then .ok true
  else if Int64.minValue.toInt ≤ n ∧ n ≤ Int64.maxValue.toInt then .error .unreadableBool
  else .error .notBool

def readBool : Value → Check Bool
  | .bool b => .ok b
  | .text s => readWord s
  | .int n => readNumber n
  | .real mantissa places =>
    let unit := Int.pow 10 places
    if mantissa % unit = 0 then readNumber (mantissa / unit) else .error .notBool
  | _ => .error .notBool

/-- The base location: not blank, without blanks around it. -/
def checkUrl (s : String) : Check String :=
  if s = "" then .error .tooShort
  else
    let stripped := Text.strip s
    if stripped = "" then .error (.rule "url cannot be empty or whitespace-only") else .ok stripped

/-- The extension: without blanks around it, and with a dot before it unless it is empty. -/
def checkExtension (s : String) : String :=
  let stripped := Text.strip s
  if stripped ≠ "" ∧ !Text.startsWith "." stripped then "." ++ stripped else stripped

/-- The compression: one that there is. -/
def checkCompression (s : String) : Check Codec.Scheme :=
  match Codec.Scheme.parse s with
  | .ok scheme => .ok scheme
  | .error e => .error (.rule e.message)

def fieldNames : List String :=
  ["url", "extension", "compression", "overwrite"]

/-- What a check says about a field; a field that is not given has the default, if there is one. -/
def checkField {α : Type} (fields : List (String × Value)) (name : String) (default : Option α)
    (check : Value → Check α) : Except Problem α :=
  match Value.member? name fields, default with
  | some v, _ =>
    match check v with
    | .ok a => .ok a
    | .error kind => .error ⟨name, kind, v⟩
  | none, some a => .ok a
  | none, none => .error ⟨name, .missing, .object fields⟩

/-- The problem of a check, if it has one. -/
def problemOf {α : Type} : Except Problem α → List Problem
  | .ok _ => []
  | .error p => [p]

def ofFields (fields : List (String × Value)) : Except (List Problem) Config :=
  let url := checkField fields "url" none (readText · >>= checkUrl)
  let extension := checkField fields "extension" (some "") (readText · |>.map checkExtension)
  let compression := checkField fields "compression" (some .none) (readText · >>= checkCompression)
  let overwrite := checkField fields "overwrite" (some false) readBool
  let unknown := (fields.filter fun (name, _) => !fieldNames.contains name).map
    fun (name, v) => (⟨name, .unknownField, v⟩ : Problem)
  match url, extension, compression, overwrite, unknown with
  | .ok url, .ok extension, .ok compression, .ok overwrite, [] =>
    .ok { url, extension, compression, overwrite }
  | _, _, _, _, _ =>
    .error (problemOf url ++ problemOf extension ++ problemOf compression ++ problemOf overwrite
      ++ unknown)

def ofTexts (url extension compression : String) (overwrite : Bool) : Except Failure Config :=
  match ofFields [("url", .text url), ("extension", .text extension),
      ("compression", .text compression), ("overwrite", .bool overwrite)] with
  | .ok config => .ok config
  | .error problems => .error { reason := .config problems }

def assign (field : String) (v : Value) : Failure :=
  { reason := .config [⟨field, .frozen, v⟩] }

def urlVariable : String := "OBJSTORE_URL"

def extensionVariable : String := "OBJSTORE_EXTENSION"

def compressionVariable : String := "OBJSTORE_COMPRESSION"

def overwriteVariable : String := "OBJSTORE_OVERWRITE"

def ofEnvironment (env : Environment) : Except Failure Config :=
  let url := Text.strip (env.get urlVariable)
  if url = "" then
    .error (.ofStorage { kind := .backend, message := urlVariable ++ " is not set" })
  else
    ofTexts url (env.get extensionVariable) (env.get compressionVariable)
      (env.flag overwriteVariable false)

end Config

end Depot
