/-!
# Refusals of the system

Why an operation on files, or the start of a program, was refused.  The wording is the system's own
and appears inside this library's messages.

## Main Definitions

* `SystemError`
* `SystemError.reason`, `SystemError.number?`, `SystemError.ofNumber?`
* `SystemError.message`
-/

namespace DualModule

/-- Why the system refuses an operation. -/
inductive SystemError where
  | notPermitted
  | noEntry
  | badExecutable
  | accessDenied
  | busy
  | alreadyExists
  | notDirectory
  | isDirectory
  | invalidArgument
  | nameTooLong
  | notEmpty
  | tooManyLinks
  /-- the bytes read are not UTF-8 though text was asked for -/
  | notUtf8
  /-- a path holds a NUL byte -/
  | nulInPath
  /-- a program's name or one of its arguments holds a NUL byte -/
  | nulInArgument
  /-- what was asked for cannot be done here at all -/
  | unsupported
deriving DecidableEq

/-- The system's wording. -/
def SystemError.reason : SystemError → String
  | notPermitted => "Operation not permitted"
  | noEntry => "No such file or directory"
  | badExecutable => "Exec format error"
  | accessDenied => "Permission denied"
  | busy => "Device or resource busy"
  | alreadyExists => "File exists"
  | notDirectory => "Not a directory"
  | isDirectory => "Is a directory"
  | invalidArgument => "Invalid argument"
  | nameTooLong => "File name too long"
  | unsupported => "Function not implemented"
  | notEmpty => "Directory not empty"
  | tooManyLinks => "Too many levels of symbolic links"
  | notUtf8 => "stream did not contain valid UTF-8"
  | nulInPath => "file name contained an unexpected NUL byte"
  | nulInArgument => "nul byte found in provided data"

/-- The system's number for a refusal, where it is the system's. -/
def SystemError.number? : SystemError → Option Nat
  | notPermitted => some 1
  | noEntry => some 2
  | badExecutable => some 8
  | accessDenied => some 13
  | busy => some 16
  | alreadyExists => some 17
  | notDirectory => some 20
  | isDirectory => some 21
  | invalidArgument => some 22
  | nameTooLong => some 36
  | unsupported => some 38
  | notEmpty => some 39
  | tooManyLinks => some 40
  | notUtf8 | nulInPath | nulInArgument => none

/-- The refusals that have numbers. -/
def SystemError.numbered : List SystemError :=
  [notPermitted, noEntry, badExecutable, accessDenied, busy, alreadyExists, notDirectory,
    isDirectory, invalidArgument, nameTooLong, unsupported, notEmpty, tooManyLinks]

/-- The refusal that has a number. -/
def SystemError.ofNumber? (n : Nat) : Option SystemError := numbered.find? (·.number? = some n)

/-- The wording of a refusal in messages, with its number where it has one. -/
def SystemError.message (e : SystemError) : String :=
  match e.number? with
  | some n => s!"{e.reason} (os error {n})"
  | none => e.reason

end DualModule
