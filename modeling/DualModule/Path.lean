import DualModule.FileName
import DualModule.Pieces
/-!
# Paths

A path is kept exactly as it was written: `/out` and `/out/` are different values, and messages
show the one that was given.  What a path *means* is its list of components, and comparing and
sorting go by those.

**Components.**  Splitting at `/` leaves pieces; the empty piece and the piece `.` say nothing and
are dropped, `..` is kept.  Two things at the front count: a leading `/`, and a leading `.`.

**Editing keeps the rest of the text.**  `Path.parent?` cuts the last component off the text and
with it whatever said nothing around it; `Path.push` puts a separator only where none is;
`Path.withFileName` is a `push` on the `parent?`.

## Main Definitions

* `Component`, `Path`, `Path.components`
* `Path.fileName?`, `Path.parent?`, `Path.push`, `Path.withFileName`
* `Path.le`: the order of paths, component by component
-/

namespace DualModule

/-- One step of a path. -/
inductive Component where
  | root
  | current
  | parent
  | name (name : FileName)
deriving DecidableEq

namespace Component

/-- The component that a piece between two separators stands for; pieces that say nothing stand
for none. -/
def ofPiece? (piece : Bytes) : Option Component :=
  if piece = [dot, dot] then some .parent else (FileName.ofBytes? piece).map .name

/-- How a component is written. -/
def bytes : Component → Bytes
  | root => [slash]
  | current => [dot]
  | parent => [dot, dot]
  | name n => n.bytes

/-- How a component is shown. -/
def display (c : Component) : Text := Utf8.lossy c.bytes

/-- The order key: root, then `.`, then `..`, then names by their bytes. -/
def key : Component → Bytes
  | root => [0]
  | current => [1]
  | parent => [2]
  | name n => 3 :: n.bytes

theorem key_inj {a b : Component} (h : a.key = b.key) : a = b := by
  cases a <;> cases b <;> simp_all [key]
  exact FileName.ext h

instance : Ord Component := ⟨fun a b => compare a.key b.key⟩

instance : Std.OrientedOrd Component :=
  ⟨fun {a b} => @Std.OrientedCmp.eq_swap Bytes compare _ a.key b.key⟩

instance : Std.TransOrd Component :=
  ⟨fun {a b c} => @Std.TransCmp.isLE_trans Bytes compare _ a.key b.key c.key⟩

instance : Std.LawfulEqOrd Component :=
  ⟨fun {a b} h => key_inj (@Std.LawfulEqCmp.eq_of_compare Bytes compare _ a.key b.key h)⟩

end Component

/-- A path, as it was written. -/
structure Path where
  bytes : Bytes
deriving DecidableEq, Inhabited

namespace Path

/-- The path that text spells. -/
def ofText (text : Text) : Path := ⟨Utf8.encode text⟩

/-- How a path is shown in messages. -/
def display (p : Path) : Text := Utf8.lossy p.bytes

/-- A path is absolute if it begins with a separator. -/
def isAbsolute (p : Path) : Bool := p.bytes.head? == some slash

/-- The component that the front of the text stands for by itself: a leading `/` or a leading
`.`. -/
def lead? (p : Path) : Option Component :=
  match p.bytes with
  | [] => none
  | b :: rest =>
    if b = slash then some .root
    else if b = dot ∧ (rest = [] ∨ rest.head? = some slash) then some .current
    else none

/-- The text after the leading `/` or `.`. -/
def body (p : Path) : Bytes := if p.lead?.isSome then p.bytes.tail else p.bytes

/-- The meaning of a path. -/
def components (p : Path) : List Component :=
  p.lead?.toList ++ (pieces slash p.body).filterMap Component.ofPiece?

/-- The last component, if it is a name. -/
def fileName? (p : Path) : Option FileName :=
  match p.components.getLast? with
  | some (.name n) => some n
  | _ => none

/-- Drops trailing pieces that stand for no component, given the last piece first. -/
def dropSilent (reversed : List Bytes) : List Bytes :=
  reversed.dropWhile fun piece => (Component.ofPiece? piece).isNone

/-- The path without its last component.  The root and the empty path have no parent. -/
def parent? (p : Path) : Option Path :=
  match dropSilent (pieces slash p.body).reverse, p.lead? with
  | _ :: before, lead =>
    some ⟨(lead.map Component.bytes).getD [] ++ joinPieces slash (dropSilent before).reverse⟩
  | [], some .current => some ⟨[]⟩
  | [], _ => none

/-- Appends a relative path; an absolute one replaces what was there. -/
def push (p : Path) (bytes : Bytes) : Path :=
  if bytes.head? = some slash then ⟨bytes⟩
  else if p.bytes = [] ∨ p.bytes.getLast? = some slash then ⟨p.bytes ++ bytes⟩
  else ⟨p.bytes ++ slash :: bytes⟩

/-- The path to an entry of the directory at `p`. -/
def child (p : Path) (name : FileName) : Path := p.push name.bytes

/-- The path with other text for its file name; a path without one is extended. -/
def withFileName (p : Path) (bytes : Bytes) : Path :=
  match p.fileName?, p.parent? with
  | some _, some parent => parent.push bytes
  | _, _ => p.push bytes

/-- Paths that mean the same. -/
def Same (p q : Path) : Prop := p.components = q.components

instance (p q : Path) : Decidable (Same p q) := inferInstanceAs (Decidable (_ = _))

/-- The order of paths: component by component. -/
def le (p q : Path) : Bool := (compare p.components q.components).isLE

end Path

end DualModule
