/-!
This module contains the lines that operations leave in the journal.
-/

namespace Depot

inductive Level where
  | debug
  | info
  | warning
  | error
deriving DecidableEq, Repr

def Level.name : Level → String
  | debug => "DEBUG"
  | info => "INFO"
  | warning => "WARNING"
  | error => "ERROR"

inductive Topic where
  | walk
  | policy
  | store
  | files
  | gcs
  | s3
  | construction
  | tracing
deriving DecidableEq, Repr

def Topic.name : Topic → String
  | walk => "objstore.storage.walk"
  | policy => "objstore.storage.conditional"
  | store => "objstore.storage.object_store"
  | files => "objstore.storage.filesystem_store"
  | gcs => "objstore.storage.gcs_store"
  | s3 => "objstore.storage.s3_store"
  | construction => "objstore.storage.factory"
  | tracing => "objstore.observability.tracing"

structure LogLine where
  level : Level
  topic : Topic
  message : String
deriving DecidableEq, Repr

def LogLine.render (line : LogLine) : String :=
  line.level.name ++ " " ++ line.topic.name ++ ": " ++ line.message

end Depot
