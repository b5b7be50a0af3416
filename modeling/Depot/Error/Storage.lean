import Depot.Text.Quoted

/-!
This module contains the errors that stores themselves raise, which are the same for every kind of
store.
-/

namespace Depot

inductive StorageErrorKind where
  | general
  | notFound
  | pathTraversal
  | walkCancelled
  | unsupportedCompression (scheme : String)
  | unsupportedScheme (scheme : String)
  | backend
deriving DecidableEq, Repr

namespace StorageErrorKind

def name : StorageErrorKind → String
  | general => "ObjectStorageError"
  | notFound => "ObjectNotFoundError"
  | pathTraversal => "PathTraversalError"
  | walkCancelled => "WalkCancelledError"
  | unsupportedCompression _ => "UnsupportedCompressionError"
  | unsupportedScheme _ => "UnsupportedSchemeError"
  | backend => "StorageBackendError"

def defaultMessage : StorageErrorKind → String
  | general => ""
  | notFound => "Object not found"
  | pathTraversal => "Invalid name: path escapes store root"
  | walkCancelled => "Walk cancelled"
  | unsupportedCompression scheme => "Unsupported compression scheme: " ++ Text.quoted scheme
  | unsupportedScheme scheme => "Unsupported store scheme: " ++ Text.quoted scheme
  | backend => "Storage backend error"

end StorageErrorKind

structure StorageError where
  kind : StorageErrorKind
  message : String := kind.defaultMessage
  url : Option String := none
  name : Option String := none
deriving DecidableEq, Repr

namespace StorageError

/-- A part of the text that is left out if there is nothing to say. -/
def labelled (label : String) : Option String → String
  | none => ""
  | some s => if s = "" then "" else " " ++ label ++ "=" ++ s

/-- The text of an error: its message, and what it concerns. -/
def render (e : StorageError) : String :=
  e.message ++ labelled "url" e.url ++ labelled "name" e.name

end StorageError

end Depot
