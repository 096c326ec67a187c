import DualModule.Utf8
/-!
# Rename rules

A rule renames one family of generated files by exchanging the end of the file name.  It also says
how such a file is imported: an importer names the file's *stem* (the name without the extension)
and may write an extension after it.

**The two families.**  Implementations become `.cjs` modules and declarations become `.d.cts`
declarations.  Importers write `.js` after the stem of either, because a declaration is found
through the module that it describes; after renaming they have to write `.cjs`.

## Main Definitions

* `RenameRule`, `RenameRule.renamed?`
* `RenameRule.implementation`, `RenameRule.declaration`, `RenameRule.dualModule`
-/

namespace DualModule

/-- How the files of one family are renamed and imported. -/
structure RenameRule where
  /-- the end of a file name that the rule applies to -/
  matchSuffix : Text
  /-- what is written in its place -/
  replacementSuffix : Text
  /-- what follows the stem in the old file name -/
  oldExtension : Text
  /-- what follows the stem in the new file name -/
  newExtension : Text
  /-- what an importer may write after the old stem -/
  oldSpecifierExtension : Text
  /-- what an importer has to write after the new stem -/
  newSpecifierExtension : Text
deriving DecidableEq

/-- What stands before `suffix` at the end of `text`, if `text` ends so. -/
def dropSuffix? (suffix text : Text) : Option Text :=
  if suffix.isSuffixOf text then some (text.take (text.length - suffix.length)) else none

namespace RenameRule

/-- Modules. -/
def implementation : RenameRule where
  matchSuffix := "_pb.js".toList
  replacementSuffix := "_pb.cjs".toList
  oldExtension := ".js".toList
  newExtension := ".cjs".toList
  oldSpecifierExtension := ".js".toList
  newSpecifierExtension := ".cjs".toList

/-- Type declarations of those modules. -/
def declaration : RenameRule where
  matchSuffix := "_pb.d.ts".toList
  replacementSuffix := "_pb.d.cts".toList
  oldExtension := ".d.ts".toList
  newExtension := ".d.cts".toList
  oldSpecifierExtension := ".js".toList
  newSpecifierExtension := ".cjs".toList

/-- The rules that make a generated tree loadable from either module system. -/
def dualModule : List RenameRule := [implementation, declaration]

/-- The new name of a file, if the rule applies to its name. -/
def renamed? (rule : RenameRule) (name : Text) : Option Text :=
  (dropSuffix? rule.matchSuffix name).map (· ++ rule.replacementSuffix)

end RenameRule

end DualModule
