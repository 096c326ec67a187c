import DualModule.Ordered
import DualModule.Path
import DualModule.RenameRule
/-!
# Rename plans

A mapping takes one file from its old path to its new one under a rule.  The plan for a list of
files holds a mapping for each file to which some rule applies, the first such rule deciding, in
the order of the old paths.  A file whose name is not UTF-8 is never renamed.

## Main Definitions

* `Mapping`, `Mapping.oldStem`, `Mapping.newStem`
* `RenamePlan.of`: the plan for a list of files
-/

namespace DualModule

/-- One planned rename. -/
structure Mapping where
  old : Path
  new : Path
  rule : RenameRule
deriving DecidableEq

namespace Path

/-- The path with `suffix` taken off its file name; a path whose file name does not end so, or is
not UTF-8, stays as it is. -/
def dropNameSuffix (p : Path) (suffix : Text) : Path :=
  match p.fileName?.bind FileName.text? |>.bind (dropSuffix? suffix) with
  | some stem => p.withFileName (Utf8.encode stem)
  | none => p

end Path

namespace Mapping

/-- The old path as importers write it: without the extension. -/
def oldStem (m : Mapping) : Path := m.old.dropNameSuffix m.rule.oldExtension

/-- The new path as importers write it: without the extension. -/
def newStem (m : Mapping) : Path := m.new.dropNameSuffix m.rule.newExtension

/-- The mapping that a rule makes for a file with this name. -/
def ofRule? (file : Path) (name : Text) (rule : RenameRule) : Option Mapping :=
  (rule.renamed? name).map fun new => ⟨file, file.withFileName (Utf8.encode new), rule⟩

/-- The mapping that the first applicable rule makes for a file. -/
def ofFile? (rules : List RenameRule) (file : Path) : Option Mapping :=
  (file.fileName?.bind FileName.text?).bind fun name => rules.findSome? (ofRule? file name)

end Mapping

/-- The mappings that `rules` imply for `files`, in the order of the old paths. -/
def RenamePlan.of (files : List Path) (rules : List RenameRule) : List Mapping :=
  ordered (fun a b => a.old.le b.old) (files.filterMap (Mapping.ofFile? rules))

end DualModule
