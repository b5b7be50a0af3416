import Depot.Codec.Error
import Depot.Error.Config
import Depot.Error.Provider
import Depot.Error.Storage
import Depot.Error.System
import Depot.Location.Host

/-!
This module contains failures: why an operation does not return, and the failure behind it if it
was raised on account of another one.
-/

namespace Depot

inductive ClosedStream where
  | plain
  | gzip
  | zstd
deriving DecidableEq, Repr

def ClosedStream.message : ClosedStream → String
  | plain => "I/O operation on closed file."
  | gzip => "I/O operation on closed file"
  | zstd => "stream is closed"

inductive Reason where
  | storage (error : StorageError)
  | system (error : SystemError)
  | malformed (why : Location.Malformed)
  | outside (path base : String)
  | linkCycle (path : String)
  | codec (fault : Codec.Fault)
  | closed (stream : ClosedStream)
  | provider (error : ProviderError)
  | other (error : OtherError)
  | noMember (kind name : String)
  | unexpectedOption (constructor option : String)
  /-- A constructor is not given its only argument. -/
  | missingArgument (constructor argument : String)
  | config (problems : List Problem)
  | tracing (why : String)
  | missingPackage (name : String)
  | stopWalk (message : String)

structure Failure where
  reason : Reason
  cause : Option Reason := none

namespace Reason

def kindName : Reason → String
  | storage e => e.kind.name
  | system e => e.code.kindName
  | malformed _ => "ValueError"
  | outside _ _ => "ValueError"
  | linkCycle _ => "RuntimeError"
  | codec e => e.kind
  | closed _ => "ValueError"
  | provider e => e.kindName
  | other e => e.kind
  | noMember _ _ => "AttributeError"
  | unexpectedOption _ _ | missingArgument _ _ => "TypeError"
  | config _ => "ValidationError"
  | tracing _ => "TracingConfigError"
  | missingPackage _ => "ModuleNotFoundError"
  | stopWalk _ => "StopWalk"

def render : Reason → String
  | storage e => e.render
  | system e => e.render
  | malformed why => why.message
  | outside path base =>
    Text.quoted path ++ " is not in the subpath of " ++ Text.quoted base
      ++ " OR one path is relative and the other is absolute."
  | linkCycle path => "Symlink loop from " ++ Text.quoted path
  | codec e => e.message
  | closed stream => stream.message
  | provider e => e.render
  | other e => e.message
  | noMember kind name => "'" ++ kind ++ "' object has no attribute '" ++ name ++ "'"
  | unexpectedOption constructor option =>
    constructor ++ ".__init__() got an unexpected keyword argument '" ++ option ++ "'"
  | missingArgument constructor argument =>
    constructor ++ ".__init__() missing 1 required positional argument: '" ++ argument ++ "'"
  | config problems => Problem.report problems
  | tracing why => "OpenTelemetry tracing required but unavailable: " ++ why
  | missingPackage name => "No module named '" ++ name ++ "'"
  | stopWalk message => message

/-- The text of each reason without the paths of files; problems of a description in short. -/
def brief : Reason → String
  | system e => e.brief
  | config problems => "\n".intercalate (problems.map Problem.brief)
  | r => r.render

end Reason

namespace Failure

def ofStorage (error : StorageError) : Failure :=
  { reason := .storage error }

def ofSystem (error : SystemError) : Failure :=
  { reason := .system error }

/-- Whether a failure ends the program, so that no handler of errors takes it. -/
def interrupts (f : Failure) : Bool :=
  match f.reason with
  | .other e => e.interrupts
  | _ => false

/-- Whether an object was not there. -/
def isNotFound (f : Failure) : Bool :=
  match f.reason with
  | .storage e => e.kind = .notFound
  | _ => false

end Failure

end Depot
