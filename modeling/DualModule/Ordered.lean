/-!
# Stable ordering

Lists in ascending order of a Boolean comparison.  `ordered` inserts the elements from the last to
the first, each before everything that is not smaller, so elements that compare equal keep their
places relative to each other.  Lists here are short and nearly always in order already, where
insertion touches one element.

## Main Definitions

* `insertOrdered`, `ordered`
-/

namespace DualModule

variable {α : Type}

/-- Inserts `x` before the first element that is not smaller. -/
def insertOrdered (le : α → α → Bool) (x : α) : List α → List α
  | [] => [x]
  | y :: ys => if le x y then x :: y :: ys else y :: insertOrdered le x ys

/-- The list in ascending order; elements that compare equal stay in their order. -/
def ordered (le : α → α → Bool) : List α → List α
  | [] => []
  | x :: xs => insertOrdered le x (ordered le xs)

@[simp] theorem ordered_nil (le : α → α → Bool) : ordered le [] = [] := rfl

@[simp] theorem ordered_cons (le : α → α → Bool) (x : α) (xs : List α) :
    ordered le (x :: xs) = insertOrdered le x (ordered le xs) := rfl

theorem insertOrdered_perm (le : α → α → Bool) (x : α) (xs : List α) :
    (insertOrdered le x xs).Perm (x :: xs) := by
  induction xs with
  | nil => exact List.Perm.refl _
  | cons y ys ih =>
    unfold insertOrdered
    split
    · exact List.Perm.refl _
    · exact (ih.cons y).trans (List.Perm.swap x y ys)

theorem ordered_perm (le : α → α → Bool) (xs : List α) : (ordered le xs).Perm xs := by
  induction xs with
  | nil => exact List.Perm.refl _
  | cons x xs ih => exact (insertOrdered_perm le x _).trans (ih.cons x)

@[simp] theorem mem_ordered {le : α → α → Bool} {a : α} {xs : List α} :
    a ∈ ordered le xs ↔ a ∈ xs := (ordered_perm le xs).mem_iff

@[simp] theorem length_ordered (le : α → α → Bool) (xs : List α) :
    (ordered le xs).length = xs.length := (ordered_perm le xs).length_eq

end DualModule
