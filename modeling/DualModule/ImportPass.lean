import DualModule.Procedure.Pool
import DualModule.Replacement
import DualModule.Walk
/-!
# The import pass

The pass edits every regular file below a root, so that imports name files as they are called after
renaming.  What applies to a file follows from the directory that it is in.

**Content that is not UTF-8 is not text** and is written back byte for byte.

**One job per file.**  The jobs read and write different files, so that the order in which they are
done does not matter.  `editImports` does them one after another; `editPool` lets some of them be
under way at the same time.

## Main Definitions

* `FileEdit`, `editFile`
* `EditSummary`, `editImports`
* `editPool`
-/

namespace DualModule

/-- What the editing of one file amounted to. -/
structure FileEdit where
  path : Path
  replacements : Nat
deriving DecidableEq

/-- What the editing of a tree amounted to. -/
structure EditSummary where
  filesVisited : Nat
  filesChanged : Nat
  replacements : Nat
deriving DecidableEq

/-- The totals over files. -/
def EditSummary.ofOutcomes (outcomes : List FileEdit) : EditSummary where
  filesVisited := outcomes.length
  filesChanged := outcomes.countP (0 < ·.replacements)
  replacements := (outcomes.map (·.replacements)).foldr (· + ·) 0

/-- The directory that a file is in. -/
def Path.directory (file : Path) : Path := file.parent?.getD ⟨[slash]⟩

/-- What the content of a file becomes, and how many replacements are made in it. -/
def editContent (mappings : List Mapping) (file : Path) (content : Bytes) : Bytes × Nat :=
  match Utf8.decode? content with
  | some text =>
    let r := Replacement.apply (Replacement.table file.directory mappings) text
    (Utf8.encode r.content, r.count)
  | none => (content, 0)

/-- Edits one file. -/
def editFile (mappings : List Mapping) (file : Path) : Attempt PassError FileEdit := do
  let content ← Attempt.explained (.request (.read file)) (.read file)
  let (edited, count) := editContent mappings file content
  Attempt.explained (.request (.write file edited)) (.write file)
  return ⟨file, count⟩

/-- Edits every regular file below `root`.  The first failure ends the pass. -/
def editImports (root : Path) (mappings : List Mapping) :
    Attempt PassError EditSummary := do
  let outcomes ← (← filesBelow root).mapM (editFile mappings)
  return .ofOutcomes outcomes

/-- How many files may be under way at a time. -/
def maxEditsAtOnce : Nat := 64

/-- The jobs of the pass over some files, none of which has been started. -/
def editPool (mappings : List Mapping) (files : List Path) : Pool PassError FileEdit where
  waiting := files.map fun file => (editFile mappings file).run
  running := []
  results := []

end DualModule
