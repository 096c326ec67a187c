import DualModule.ExitStatus
import DualModule.Glob.Expand
/-!
# Procedures

Everything this library does to files is a *procedure*: a program that issues requests to a host,
one at a time, and goes on with the answers.  A procedure is data, so that what it asks for, and in
which order, can be stated and proved, and so that the same procedure can be run alone, next to
others, or on a host where requests fail.

**The host answers requests on a file tree.**  Three things are the host's own: the directory in
which relative paths start, the order in which a directory is listed, and what happens when a
program is started.  All else is fixed by the operations on trees: a request is refused only where
the tree makes it impossible, and not for want of permission or because of a defect.

## Main Definitions

* `Request`, `Request.Reply`
* `Procedure`, a monad; `Attempt`, procedures that may fail
* `Host`, `Request.answer`, `Procedure.run`
-/

namespace DualModule

/-- What a procedure can ask of its host. -/
inductive Request where
  /-- the canonical path of what a path names -/
  | canonicalize (path : Path)
  /-- the entries of a directory -/
  | list (path : Path)
  /-- whether a path names anything -/
  | test (path : Path)
  /-- a second name for a file -/
  | link (existing new : Path)
  /-- taking a name away -/
  | unlink (path : Path)
  /-- the bytes of a file -/
  | read (path : Path)
  /-- new bytes for a file -/
  | write (path : Path) (content : Bytes)
  /-- taking a directory away with everything in it -/
  | removeTree (path : Path)
  /-- making a directory and those above it -/
  | makeDirectories (path : Path)
  /-- the paths that a pattern selects -/
  | expand (pattern : Glob.Pattern)
  /-- running a program to its end -/
  | launch (program : Text) (arguments : List Text)
deriving DecidableEq

/-- What a request is answered with. -/
@[reducible] def Request.Reply : Request → Type
  | canonicalize _ => Except SystemError Path
  | list _ => Except SystemError (List (FileName × NodeKind))
  | test _ => Except SystemError Bool
  | link _ _ | unlink _ | write _ _ | removeTree _ | makeDirectories _ => Except SystemError Unit
  | read _ => Except SystemError Bytes
  | expand _ => List Path
  | launch _ _ => Except SystemError Completion

/-- A program of requests. -/
inductive Procedure (α : Type) where
  | done (result : α)
  | ask (request : Request) (next : request.Reply → Procedure α)

namespace Procedure

variable {α β γ : Type}

/-- Goes on with a procedure once another one is done. -/
def bind : Procedure α → (α → Procedure β) → Procedure β
  | done a, f => f a
  | ask r next, f => ask r fun reply => (next reply).bind f

instance : Monad Procedure where
  pure := done
  bind := bind

@[simp] theorem pure_eq (a : α) : (pure a : Procedure α) = done a := rfl

@[simp] theorem done_bind (a : α) (f : α → Procedure β) : (done a >>= f) = f a := rfl

@[simp] theorem ask_bind (r : Request) (next : r.Reply → Procedure α) (f : α → Procedure β) :
    (ask r next >>= f) = ask r fun reply => next reply >>= f := rfl

theorem bind_done (p : Procedure α) : p.bind done = p := by
  induction p with
  | done a => rfl
  | ask r next ih => exact congrArg (ask r) (funext ih)

theorem bind_bind (p : Procedure α) (f : α → Procedure β) (g : β → Procedure γ) :
    (p.bind f).bind g = p.bind fun a => (f a).bind g := by
  induction p with
  | done a => rfl
  | ask r next ih => exact congrArg (ask r) (funext ih)

instance : LawfulMonad Procedure :=
  LawfulMonad.mk' Procedure bind_done (fun _ _ => rfl) bind_bind

/-- The procedure that asks once. -/
def request (r : Request) : Procedure r.Reply := ask r done

end Procedure

/-- A procedure that may fail. -/
abbrev Attempt (ε α : Type) := ExceptT ε Procedure α

namespace Attempt

variable {ε α : Type}

/-- A procedure that may be refused, as one that fails with what `explain` makes of a refusal. -/
def explained (p : Procedure (Except SystemError α)) (explain : SystemError → ε) : Attempt ε α :=
  ExceptT.mk ((fun reply => reply.mapError explain) <$> p)

end Attempt

/-- What answers requests: where relative paths start, in which order directories are listed, and
what programs do. -/
structure Host where
  here : Location
  arrange : Location → List (FileName × NodeKind) → List (FileName × NodeKind)
  arrange_perm : ∀ d entries, (arrange d entries).Perm entries
  launch : FileTree → Text → List Text → Except SystemError Completion × FileTree

namespace Request

/-- The answer of a tree to the question where a listing comes from. -/
def listing (host : Host) (t : FileTree) (p : Path) :
    Except SystemError (List (FileName × NodeKind)) := do
  let entries ← t.list host.here p
  return host.arrange (← t.locate host.here p true) entries

/-- What a request is answered, and the tree that it leaves. -/
def answer (host : Host) (t : FileTree) : (r : Request) → r.Reply × FileTree
  | canonicalize p => (t.canonical host.here p, t)
  | list p => (listing host t p, t)
  | test p => (t.exists? host.here p, t)
  | link existing new => t.orUnchanged (t.link host.here existing new)
  | unlink p => t.orUnchanged (t.unlink host.here p)
  | read p => (t.read host.here p, t)
  | write p content => t.orUnchanged (t.write host.here p content)
  | removeTree p => t.removeTree host.here p
  | makeDirectories p => t.makeDirectories host.here p
  | expand pattern => (Glob.expand t host.here pattern, t)
  | launch program arguments => host.launch t program arguments

end Request

namespace Procedure

variable {α β : Type}

/-- Runs a procedure to its end: its result, and the tree that it leaves. -/
def run (host : Host) : Procedure α → FileTree → α × FileTree
  | done a, t => (a, t)
  | ask r next, t =>
    let (reply, u) := r.answer host t
    (next reply).run host u

@[simp] theorem run_done (host : Host) (a : α) (t : FileTree) :
    (done a).run host t = (a, t) := rfl

@[simp] theorem run_pure (host : Host) (a : α) (t : FileTree) :
    (pure a : Procedure α).run host t = (a, t) := rfl

@[simp] theorem run_ask (host : Host) (r : Request) (next : r.Reply → Procedure α)
    (t : FileTree) :
    (ask r next).run host t = (next (r.answer host t).1).run host (r.answer host t).2 := rfl

/-- **Running one procedure after another** is running the second on what the first leaves. -/
@[simp] theorem run_bind (host : Host) (p : Procedure α) (f : α → Procedure β) (t : FileTree) :
    (p >>= f).run host t = (f (p.run host t).1).run host (p.run host t).2 := by
  induction p generalizing t with
  | done a => rfl
  | ask r next ih => exact ih _ _

end Procedure

end DualModule
