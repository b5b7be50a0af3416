import Depot.Text.Quoted

/-!
This module contains the errors of file operations.
-/

namespace Depot

inductive SystemErrorCode where
  | noEntry
  | busy
  | alreadyExists
  | notDirectory
  | isDirectory
  | noSpace
  | nameTooLong
  | notEmpty
  | tooManyLinks
deriving DecidableEq, Repr

namespace SystemErrorCode

def number : SystemErrorCode → Nat
  | noEntry => 2
  | busy => 16
  | alreadyExists => 17
  | notDirectory => 20
  | isDirectory => 21
  | noSpace => 28
  | nameTooLong => 36
  | notEmpty => 39
  | tooManyLinks => 40

def wording : SystemErrorCode → String
  | noEntry => "No such file or directory"
  | busy => "Device or resource busy"
  | alreadyExists => "File exists"
  | notDirectory => "Not a directory"
  | isDirectory => "Is a directory"
  | noSpace => "No space left on device"
  | nameTooLong => "File name too long"
  | notEmpty => "Directory not empty"
  | tooManyLinks => "Too many levels of symbolic links"

def kindName : SystemErrorCode → String
  | noEntry => "FileNotFoundError"
  | alreadyExists => "FileExistsError"
  | notDirectory => "NotADirectoryError"
  | isDirectory => "IsADirectoryError"
  | busy | noSpace | nameTooLong | notEmpty | tooManyLinks => "OSError"

end SystemErrorCode

structure SystemError where
  code : SystemErrorCode
  path : Option String := none
  target : Option String := none
deriving DecidableEq, Repr

namespace SystemError

def brief (e : SystemError) : String :=
  "[Errno " ++ toString e.code.number ++ "] " ++ e.code.wording

def render (e : SystemError) : String :=
  match e.path, e.target with
  | none, _ => e.brief
  | some path, none => e.brief ++ ": " ++ Text.quoted path
  | some path, some target =>
    e.brief ++ ": " ++ Text.quoted path ++ " -> " ++ Text.quoted target

end SystemError

end Depot
