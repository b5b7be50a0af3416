import Depot.Location.Host

/-!
This module contains the parts of a URL that locate something: the scheme, the host with all that
stands beside it, and the path. Parameters, query and fragment are cut off.
-/

namespace Depot.Location

/-- The locating parts of a URL. The scheme is empty if the text starts with none. -/
structure Url where
  scheme : String
  host : String
  path : String
deriving DecidableEq, Repr

namespace Url

def isLead (c : Char) : Bool :=
  c.toNat ≤ 0x20

def isSkipped (c : Char) : Bool :=
  c = '\t' || c = '\r' || c = '\n'

def isSchemeChar (c : Char) : Bool :=
  c.isAlphanum || c = '+' || c = '-' || c = '.'

/-- The schemes whose paths end in parameters after a semicolon; without a scheme they do too. -/
def takesParameters (scheme : String) : Bool :=
  ["", "ftp", "hdl", "prospero", "http", "imap", "https", "shttp", "rtsp", "rtsps", "rtspu", "sip",
    "sips", "mms", "sftp", "tel"].contains scheme

def splitScheme (cs : List Char) : List Char × List Char :=
  match cs, Text.cut ':' cs with
  | c :: _, (before, some rest) =>
    if c.isAlpha && before.all isSchemeChar then (before.map Char.toLower, rest) else ([], cs)
  | _, _ => ([], cs)

def endsHost (c : Char) : Bool :=
  c = '/' || c = '?' || c = '#'

def splitHost (cs : List Char) : List Char × List Char :=
  match cs with
  | '/' :: '/' :: rest => (rest.takeWhile (!endsHost ·), rest.dropWhile (!endsHost ·))
  | cs => ([], cs)

def dropParameters (path : List Char) : List Char :=
  let components := Text.splitOn '/' path
  match components.getLast? with
  | some last => Text.joinWith '/' (components.dropLast ++ [(Text.cut ';' last).1])
  | none => path

def parse (text : String) : Except Malformed Url :=
  let cs := (text.toList.dropWhile isLead).filter (!isSkipped ·)
  let (scheme, rest) := splitScheme cs
  let (host, rest) := splitHost rest
  match hostFault? host with
  | some fault => .error fault
  | none =>
    let path := (Text.cut '?' (Text.cut '#' rest).1).1
    if host.any hidesDelimiter then
      .error (.delimiterInHost (String.ofList host))
    else
      let scheme := String.ofList scheme
      let path := if takesParameters scheme then dropParameters path else path
      .ok ⟨scheme, String.ofList host, String.ofList path⟩

end Url

end Depot.Location
