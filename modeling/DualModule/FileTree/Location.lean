import DualModule.Path
/-!
# Locations

Where an entry of a file tree is: the names from the root to it.  The innermost name comes first,
so an entry of the directory at `d` is at `n :: d`, and leaving a directory is taking the tail.

Every location has one canonical path, absolute and without links or detours.  The system accepts a
path only up to a certain length, and a name only up to a certain length and without NUL; a
location within those limits is *addressable*.

## Main Definitions

* `Location`, `Location.path`, `Location.Below`
* `Location.Addressable`
* `Path.location`
-/

namespace DualModule

/-- The names from the root to an entry, the innermost first. -/
abbrev Location := List FileName

/-- The longest name that the system accepts, in bytes. -/
def maxNameLength : Nat := 255

/-- The longest path that the system accepts, in bytes. -/
def maxPathLength : Nat := 4095

namespace FileName

/-- Whether the system accepts the name. -/
def Acceptable (n : FileName) : Prop := n.bytes.length ≤ maxNameLength ∧ (0 : UInt8) ∉ n.bytes

instance (n : FileName) : Decidable n.Acceptable := inferInstanceAs (Decidable (_ ∧ _))

end FileName

namespace Location

/-- The canonical path of a location. -/
def path : Location → Path
  | [] => ⟨[slash]⟩
  | n :: d => (path d).child n

@[simp] theorem path_nil : path [] = ⟨[slash]⟩ := rfl

@[simp] theorem path_cons (n : FileName) (d : Location) : path (n :: d) = (path d).child n := rfl

/-- `l` is strictly inside the directory at `d`. -/
def Below (d l : Location) : Prop := d <:+ l ∧ d ≠ l

instance (d l : Location) : Decidable (Below d l) := inferInstanceAs (Decidable (_ ∧ _))

/-- The system can be given a path to this location. -/
def Addressable (l : Location) : Prop :=
  (∀ n ∈ l, n.Acceptable) ∧ l.path.bytes.length ≤ maxPathLength

instance (l : Location) : Decidable l.Addressable := inferInstanceAs (Decidable (_ ∧ _))

end Location

/-- The location that the names of a path spell. -/
def Path.location (p : Path) : Location :=
  (p.components.filterMap fun
    | .name n => some n
    | _ => none).reverse

end DualModule
