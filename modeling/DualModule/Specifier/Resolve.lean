import DualModule.FileTree.Resolve
import DualModule.Specifier
/-!
# What a specifier names

A specifier is read from a directory step by step: down to a name, up for `..`, nowhere for `.` and
for nothing between two separators.  This is the reading of those who load modules, and does not
look at files.

## Main Definitions

* `Step.move`
* `Specifier.resolve`
-/

namespace DualModule

/-- Where a step leads from a location; the root is above itself. -/
def Step.move (l : Location) : Step → Location
  | .stay => l
  | .up => l.tail
  | .down n => n :: l

@[simp] theorem Step.move_stay (l : Location) : Step.stay.move l = l := rfl

@[simp] theorem Step.move_up (l : Location) : Step.up.move l = l.tail := rfl

@[simp] theorem Step.move_down (l : Location) (n : FileName) : (Step.down n).move l = n :: l := rfl

namespace Specifier

/-- The location that a specifier names in the directory at `directory`. -/
def resolve (directory : Location) (specifier : Text) : Location :=
  (Path.ofText specifier).steps.foldl Step.move directory

@[simp] theorem resolve_nil (directory : Location) : resolve directory [] = directory := by
  simp [resolve, Path.ofText, Path.steps, pieces, Step.ofPiece?, FileName.ofBytes?,
    FileName.Proper]

end Specifier

end DualModule
