import Depot.Codec.Scheme
import Depot.Naming

/-!
This module contains stores: a base location, and how the objects below it are named and written.
-/

namespace Depot

inductive Backend where
  | files
  | gcs
  | s3
deriving DecidableEq, Repr

namespace Backend

def name : Backend → String
  | files => "filesystem"
  | gcs => "gcs"
  | s3 => "s3"

def scheme : Backend → String
  | files => "file"
  | gcs => "gs"
  | s3 => "s3"

def typeName : Backend → String
  | files => "FilesystemObjectStore"
  | gcs => "GCSObjectStore"
  | s3 => "S3ObjectStore"

end Backend

/-- A store. Nothing about it ever changes. -/
structure Store where
  backend : Backend
  location : Location
  extension : String := ""
  compression : Codec.Scheme := .none
  overwrite : Bool := false
deriving DecidableEq, Repr

namespace Store

def naming (store : Store) : Naming :=
  ⟨store.location, store.extension⟩

def key (store : Store) (name : String) : String :=
  store.naming.key name

def url (store : Store) : String :=
  store.location.render

def mayReplace (store : Store) (overwrite : Option Bool) : Bool :=
  overwrite.getD store.overwrite

def render (store : Store) : String :=
  store.backend.typeName ++ "(" ++ Text.quoted store.url
    ++ ", extension=" ++ Text.quoted store.extension
    ++ ", compression=" ++ Text.quoted store.compression.name
    ++ ", overwrite=" ++ (if store.overwrite then "True" else "False") ++ ")"

def errorAbout (store : Store) (kind : StorageErrorKind) (name : String) : StorageError :=
  { kind, url := some store.url, name := some name }

def notFound (store : Store) (name : String) (cause : Option Reason := none) : Failure :=
  { reason := .storage (store.errorAbout .notFound name), cause }

end Store

end Depot
