/-!
# Pieces between separators

Cutting a list at every separator, and putting the pieces together again.  There is always one
more piece than there are separators; pieces may be empty.

## Main Definitions

* `pieces`, `joinPieces`
-/

namespace DualModule

variable {α : Type} [DecidableEq α]

/-- The pieces of a list between separators. -/
def pieces (separator : α) : List α → List (List α)
  | [] => [[]]
  | x :: xs =>
    if x = separator then [] :: pieces separator xs
    else match pieces separator xs with
      | [] => [[x]]
      | p :: ps => (x :: p) :: ps

/-- Puts pieces together, with a separator between each two. -/
def joinPieces (separator : α) (ps : List (List α)) : List α := List.intercalate [separator] ps

end DualModule
