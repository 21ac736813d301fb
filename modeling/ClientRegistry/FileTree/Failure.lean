/-!
# Why a file operation fails

Each cause has one wording, the one that the operating system gives it.
-/

set_option autoImplicit false

namespace ClientRegistry

inductive FileFailure where
  | notFound
  | notPermitted
  | permissionDenied
  | busy
  | alreadyExists
  | crossDevice
  | notDirectory
  | isDirectory
  | invalid
  | noSpace
  | nameTooLong
  | notEmpty
  | tooManyLinks
  | notUtf8
  | nulInPath
  | nulInCommand
  deriving DecidableEq, Repr

namespace FileFailure

/-- The operating system's words for the cause. -/
def description : FileFailure → String
  | notFound => "No such file or directory"
  | notPermitted => "Operation not permitted"
  | permissionDenied => "Permission denied"
  | busy => "Device or resource busy"
  | alreadyExists => "File exists"
  | crossDevice => "Invalid cross-device link"
  | notDirectory => "Not a directory"
  | isDirectory => "Is a directory"
  | invalid => "Invalid argument"
  | noSpace => "No space left on device"
  | nameTooLong => "File name too long"
  | notEmpty => "Directory not empty"
  | tooManyLinks => "Too many levels of symbolic links"
  | notUtf8 => "stream did not contain valid UTF-8"
  | nulInPath => "file name contained an unexpected NUL byte"
  | nulInCommand => "nul byte found in provided data"

/-- The operating system's number for the cause; none where the cause is not its own. -/
def number? : FileFailure → Option Nat
  | notPermitted => some 1
  | notFound => some 2
  | permissionDenied => some 13
  | busy => some 16
  | alreadyExists => some 17
  | crossDevice => some 18
  | notDirectory => some 20
  | isDirectory => some 21
  | invalid => some 22
  | noSpace => some 28
  | nameTooLong => some 36
  | notEmpty => some 39
  | tooManyLinks => some 40
  | notUtf8 | nulInPath | nulInCommand => none

def message (f : FileFailure) : String :=
  match f.number? with
  | some n => f.description ++ " (os error " ++ toString n ++ ")"
  | none => f.description

end FileFailure

end ClientRegistry
