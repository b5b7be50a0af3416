import Depot.Error.Storage
import Depot.Text.Blank
import Depot.Text.Lower

/-!
This module contains the schemes by which bodies are compressed.
-/

namespace Depot.Codec

inductive Scheme where
  | none
  | gzip
  | zstd
deriving DecidableEq, Repr, Inhabited

namespace Scheme

def name : Scheme → String
  | none => "none"
  | gzip => "gzip"
  | zstd => "zstd"

/-- The scheme that has exactly this name. The empty text stands for no compression. -/
def ofName? (name : String) : Option Scheme :=
  if name = "" || name = "none" then some none
  else if name = "gzip" then some gzip
  else if name = "zstd" then some zstd
  else Option.none

/-- The scheme a text denotes, whatever its case and the blanks around it. -/
def parse (text : String) : Except StorageError Scheme :=
  let value := Text.lower (Text.strip text)
  match ofName? value with
  | some scheme => .ok scheme
  | Option.none => .error { kind := .unsupportedCompression value }

end Scheme

end Depot.Codec
