import DualModule.Path
/-!
# Relative specifiers

A specifier is how a file in one directory names another file: `..` for each directory to leave,
then the names to follow, with `/` between.  It always begins with `./` or `../`, which is what
tells it from the name of a package.

**Both paths are absolute.**  The specifier goes up to the deepest directory that the two have in
common and down from there.

## Main Definitions

* `Specifier.relative`
-/

namespace DualModule.Specifier

/-- How many components two paths have in common at the front. -/
def commonLength : List Component → List Component → Nat
  | a :: as, b :: bs => if a = b then commonLength as bs + 1 else 0
  | _, _ => 0

/-- The parts of the specifier that leads from one component list to another. -/
def parts (source target : List Component) : List Text :=
  let common := commonLength source target
  List.replicate (source.length - common) "..".toList ++
    (target.drop common).map Component.display

/-- Writes parts as a specifier: joined by `/`, and with `./` in front unless it goes up. -/
def write (parts : List Text) : Text :=
  let joined := List.intercalate ['/'] parts
  if "../".toList.isPrefixOf joined then joined else "./".toList ++ joined

/-- What a file in the directory `source` writes to import the file at `target`. -/
def relative (source target : Path) : Text := write (parts source.components target.components)

end DualModule.Specifier
