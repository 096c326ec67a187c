import DualModule.Utf8
import Std.Data.ExtTreeMap
/-!
# File names

A file name is one step down from a directory.  It is any byte string that a path can spell as one
step: not empty, free of `/`, and neither `.` nor `..`, which mean something else.  Names need not
be UTF-8.

Names are ordered by their bytes.

## Main Definitions

* `FileName`, `FileName.ofBytes?`
* `FileName.text?`: the name as text, if it is UTF-8
-/

namespace DualModule

/-- The byte that separates the steps of a path. -/
abbrev slash : UInt8 := 0x2F

/-- The byte of which `.` and `..` are made. -/
abbrev dot : UInt8 := 0x2E

/-- What a byte string has to satisfy to be a name. -/
def FileName.Proper (bytes : Bytes) : Prop :=
  bytes ≠ [] ∧ slash ∉ bytes ∧ bytes ≠ [dot] ∧ bytes ≠ [dot, dot]

instance (bytes : Bytes) : Decidable (FileName.Proper bytes) :=
  inferInstanceAs (Decidable (_ ∧ _ ∧ _ ∧ _))

/-- The name of an entry of a directory. -/
structure FileName where
  bytes : Bytes
  proper : FileName.Proper bytes
deriving DecidableEq

namespace FileName

/-- The name that these bytes spell, if they spell one. -/
def ofBytes? (bytes : Bytes) : Option FileName :=
  if h : Proper bytes then some ⟨bytes, h⟩ else none

/-- The name as text, if it is UTF-8. -/
def text? (name : FileName) : Option Text := Utf8.decode? name.bytes

@[ext] theorem ext {a b : FileName} (h : a.bytes = b.bytes) : a = b := by
  cases a; cases b; simp_all

@[simp] theorem ofBytes?_bytes (name : FileName) : ofBytes? name.bytes = some name := by
  simp [ofBytes?, name.proper]

/-- Names are ordered by their bytes. -/
instance : Ord FileName := ⟨fun a b => compare a.bytes b.bytes⟩

instance : Std.OrientedOrd FileName :=
  ⟨fun {a b} => @Std.OrientedCmp.eq_swap Bytes compare _ a.bytes b.bytes⟩

instance : Std.TransOrd FileName :=
  ⟨fun {a b c} => @Std.TransCmp.isLE_trans Bytes compare _ a.bytes b.bytes c.bytes⟩

instance : Std.LawfulEqOrd FileName :=
  ⟨fun {a b} h => FileName.ext (@Std.LawfulEqCmp.eq_of_compare Bytes compare _ a.bytes b.bytes h)⟩

end FileName

end DualModule
