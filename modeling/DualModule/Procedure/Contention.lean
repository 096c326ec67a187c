import DualModule.Procedure
/-!
# Procedures on a tree that others use

A procedure is not alone: between two of its requests another party may create files, directories
and links wherever nothing is, and the host may refuse to link or to unlink at any time, for
whatever reason.  What happens, and in which order, is a list of *turns*.  Every list of turns is
possible, and a turn that cannot be taken is passed over, so that a statement about all lists of
turns is one about all runs, about each of their states, and about what happens after their ends.

**Being left alone is one of the ways** (`Procedure.exists_after_eq_run`).

## Main Definitions

* `Event`, `Procedure.State`, `Procedure.Turn`
* `Procedure.State.after`: the state after some turns
-/

namespace DualModule

/-- What happens on a tree: a request is answered, or another party creates an entry. -/
inductive Event where
  | answered (request : Request) (reply : request.Reply)
  | created (place : Location) (node : Node)

/-- The entry at a location is taken away, under its canonical path. -/
abbrev Event.removed (l : Location) : Event := .answered (.unlink l.path) (.ok ())

/-- What a refusal is answered with, if the request is one that may be refused at any time. -/
def Request.refusal? (cause : SystemError) : (r : Request) → Option r.Reply
  | .link _ _ => some (.error cause)
  | .unlink _ => some (.error cause)
  | _ => none

namespace Procedure

variable {α : Type}

/-- A procedure under way: what is left of it, what has happened so far, the latest first, and the
tree as it is. -/
structure State (α : Type) where
  rest : Procedure α
  past : List Event
  tree : FileTree

/-- What may happen next. -/
inductive Turn where
  /-- the host answers -/
  | answer
  /-- the host refuses, and does nothing -/
  | refuse (cause : SystemError)
  /-- another party creates an entry in a directory -/
  | create (name : FileName) (directory : Location) (node : Node)

namespace State

/-- A procedure that has not begun. -/
def start (p : Procedure α) (t : FileTree) : State α := ⟨p, [], t⟩

/-- The state after one turn. -/
def take (host : Host) (s : State α) : Turn → State α
  | .answer =>
    match s.rest with
    | done _ => s
    | ask r next =>
      let (reply, u) := r.answer host s.tree
      ⟨next reply, .answered r reply :: s.past, u⟩
  | .refuse cause =>
    match s.rest with
    | done _ => s
    | ask r next =>
      match r.refusal? cause with
      | some reply => ⟨next reply, .answered r reply :: s.past, s.tree⟩
      | none => s
  | .create n d node =>
    if s.tree.get? (n :: d) = none then
      match s.tree.place n d node with
      | .ok u => ⟨s.rest, .created (n :: d) node :: s.past, u⟩
      | .error _ => s
    else s

/-- The state after some turns. -/
def after (host : Host) (s : State α) (turns : List Turn) : State α := turns.foldl (take host) s

end State

/-- A procedure that is left alone runs to its end. -/
theorem exists_after_eq_run (host : Host) (p : Procedure α) (past : List Event) (t : FileTree) :
    ∃ turns past', State.after host ⟨p, past, t⟩ turns =
      ⟨done (p.run host t).1, past', (p.run host t).2⟩ := by
  induction p generalizing past t with
  | done a => exact ⟨[], past, rfl⟩
  | ask r next ih =>
      obtain ⟨turns, past', h⟩ := ih (r.answer host t).1 (.answered r (r.answer host t).1 :: past)
        (r.answer host t).2
      exact ⟨.answer :: turns, past', h⟩

end Procedure

end DualModule
