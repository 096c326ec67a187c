import DualModule.Path
import DualModule.SystemError
/-!
# Failures of the passes over a tree

What can go wrong while a tree is walked, renamed or edited.  None of these is recovered from:
each ends the pass in which it arises.

## Main Definitions

* `PassError`, `PassError.message`
-/

namespace DualModule

/-- The path as messages show it. -/
def Path.shown (p : Path) : String := String.ofList p.display

/-- Why a pass over a tree failed. -/
inductive PassError where
  /-- a directory could not be listed -/
  | traversal (directory : Path) (cause : SystemError)
  /-- the new name of a file is taken -/
  | collision (old new : Path)
  /-- two files would get the same new name -/
  | duplicateTarget (first second new : Path)
  | rename (old new : Path) (cause : SystemError)
  | read (file : Path) (cause : SystemError)
  | write (file : Path) (cause : SystemError)
deriving DecidableEq

/-- The wording of a failure. -/
def PassError.message : PassError → String
  | traversal directory cause => s!"failed to read directory {directory.shown}: {cause.message}"
  | collision old new =>
    s!"refusing to rename {old.shown} -> {new.shown}: target already exists"
  | duplicateTarget first second new =>
    s!"{first.shown} and {second.shown} would both be renamed to {new.shown}"
  | rename old new cause => s!"failed to rename {old.shown} -> {new.shown}: {cause.message}"
  | read file cause => s!"failed to read {file.shown}: {cause.message}"
  | write file cause => s!"failed to write {file.shown}: {cause.message}"

end DualModule
