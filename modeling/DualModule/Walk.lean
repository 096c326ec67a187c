import DualModule.PassError
import DualModule.Procedure
/-!
# Walking a tree

A walk lists every directory and every regular file below a root.  It starts at the canonical path
of the root, so every path that it finds is absolute, and it goes into real directories only:
symbolic links are neither followed nor reported.

**A directory that cannot be listed ends the whole walk**, so a walk never yields part of a tree.

**Depth.**  Each level makes the path at least two bytes longer, and the system accepts paths of
`maxPathLength` bytes, so that many levels are more than any tree has.

## Main Definitions

* `Found`, `walk`, `filesBelow`
-/

namespace DualModule

/-- Something that a walk found. -/
structure Found where
  path : Path
  kind : NodeKind
deriving DecidableEq

namespace Found

/-- What an entry of the directory at `directory` amounts to; a link amounts to nothing. -/
def ofEntry? (directory : Path) (entry : FileName × NodeKind) : Option Found :=
  match entry.2 with
  | .link => none
  | kind => some ⟨directory.child entry.1, kind⟩

end Found

/-- Everything below a directory, at most `levels` deep. -/
def walkBelow : Nat → Path → Attempt PassError (List Found)
  | 0, directory => throw (.traversal directory .nameTooLong)
  | levels + 1, directory => do
    let entries ← Attempt.explained (.request (.list directory)) (.traversal directory)
    let found := entries.filterMap (Found.ofEntry? directory)
    let nested ← (found.filter (·.kind = .directory)).mapM fun d => walkBelow levels d.path
    return found ++ nested.flatten

/-- Every directory and every regular file below `root`, which itself is not listed. -/
def walk (root : Path) : Attempt PassError (List Found) := do
  let canonical ← Attempt.explained (.request (.canonicalize root)) (.traversal root)
  walkBelow maxPathLength canonical

/-- The paths of the regular files below `root`. -/
def filesBelow (root : Path) : Attempt PassError (List Path) := do
  return ((← walk root).filter (·.kind = .file)).map (·.path)

end DualModule
