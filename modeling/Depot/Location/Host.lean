import Depot.Text.Basic
import Depot.Text.Quoted

/-!
This module contains the host part of a URL: the addresses that may stand in brackets, and the
characters a host may not hold because their compatibility form delimits the parts of a URL.
-/

namespace Depot.Location

inductive Malformed where
  | missing
  | unbalancedBrackets
  | futureAddress
  | bracketedV4
  | noAddress (text : String)
  | delimiterInHost (host : String)
  | zeroByte
deriving DecidableEq, Repr

def Malformed.message : Malformed → String
  | missing => "store url is required"
  | unbalancedBrackets => "Invalid IPv6 URL"
  | futureAddress => "IPvFuture address is invalid"
  | bracketedV4 => "An IPv4 address cannot be in brackets"
  | noAddress text => Text.quoted text ++ " does not appear to be an IPv4 or IPv6 address"
  | delimiterInHost host =>
    "netloc '" ++ host ++ "' contains invalid characters under NFKC normalization"
  | zeroByte => "embedded null byte"

def isOctet (cs : List Char) : Bool :=
  !cs.isEmpty && cs.all Char.isDigit && cs.length ≤ 3 && (cs = ['0'] || cs.head? ≠ some '0')
    && cs.foldl (fun n c => n * 10 + (c.toNat - 0x30)) 0 ≤ 255

def isV4 (cs : List Char) : Bool :=
  let octets := Text.splitOn '.' cs
  octets.length = 4 && octets.all isOctet

def isHexDigit (c : Char) : Bool :=
  c.isDigit || ('a' ≤ c && c ≤ 'f') || ('A' ≤ c && c ≤ 'F')

def isHextet (cs : List Char) : Bool :=
  !cs.isEmpty && cs.all isHexDigit && cs.length ≤ 4

/-- The groups of an address, its dotted tail counted as two; none if that tail is no address. -/
def groups? (cs : List Char) : Option (List (List Char)) :=
  let parts := Text.splitOn ':' cs
  match parts.getLast? with
  | some last =>
    if last.contains '.' then
      if isV4 last then some (parts.dropLast ++ [['0'], ['0']]) else none
    else some parts
  | none => none

/-- One side of a gap: groups, or the single empty part that a gap at the end leaves. -/
def isSide (side : List (List Char)) : Bool :=
  side = [[]] || (!side.isEmpty && side.all isHextet)

def isGroups (parts : List (List Char)) : Bool :=
  let inner := parts.tail.dropLast
  let gaps := (inner.filter List.isEmpty).length
  if gaps = 0 then
    parts.length = 8 && parts.all isHextet
  else
    let before := parts.head?.toList ++ inner.takeWhile (!·.isEmpty)
    let after := (inner.dropWhile (!·.isEmpty)).tail ++ parts.getLast?.toList
    gaps = 1 && isSide before && isSide after
      && ((before ++ after).filter (!·.isEmpty)).length ≤ 7

def isV6 (cs : List Char) : Bool :=
  let (address, scope) := Text.cut '%' cs
  let scopeFine :=
    match scope with
    | none => true
    | some scope => !scope.isEmpty && !scope.contains '%'
  scopeFine && !cs.contains '/' && 3 ≤ (Text.splitOn ':' address).length &&
    match groups? address with
    | some parts => parts.length ≤ 9 && isGroups parts
    | none => false

/-- A `v`, hexadecimal digits, a dot and something. -/
def isFuture (cs : List Char) : Bool :=
  match cs with
  | 'v' :: rest =>
    let digits := rest.takeWhile isHexDigit
    match rest.dropWhile isHexDigit with
    | '.' :: _ :: _ => !digits.isEmpty
    | _ => false
  | _ => false

/-- What is wrong with the text between brackets, if anything. -/
def bracketFault? (cs : List Char) : Option Malformed :=
  if cs.head? = some 'v' then
    if isFuture cs then none else some .futureAddress
  else if isV4 cs then some .bracketedV4
  else if isV6 cs then none
  else some (.noAddress (String.ofList cs))

/-- The text after the first `[` and before the next `]`. -/
def bracketed (host : List Char) : List Char :=
  match (Text.cut '[' host).2 with
  | none => []
  | some rest => (Text.cut ']' rest).1

/-- The characters whose compatibility form holds one of `/`, `?`, `#`, `@` and `:`. -/
def hidesDelimiter (c : Char) : Bool :=
  [0x2047, 0x2048, 0x2049, 0x2100, 0x2101, 0x2105, 0x2106, 0x2a74, 0xfe13, 0xfe16, 0xfe55, 0xfe56,
    0xfe5f, 0xfe6b, 0xff03, 0xff0f, 0xff1a, 0xff1f, 0xff20].contains c.toNat

/-- What is wrong with the brackets of a host, if anything. -/
def hostFault? (host : List Char) : Option Malformed :=
  if host.contains '[' != host.contains ']' then some .unbalancedBrackets
  else if host.contains '[' then bracketFault? (bracketed host)
  else none

end Depot.Location
