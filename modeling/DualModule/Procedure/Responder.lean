import DualModule.Procedure
/-!
# Procedures with any answers

A host answers requests on a file tree.  A *responder* answers them in any way at all: it keeps a
state of its own and may refuse every request, at any time and for any reason.  What a procedure
does with every responder is therefore what it does in every combination of successes and failures.

**A host is a responder** whose state is the tree (`Procedure.runWith_responder`).

## Main Definitions

* `Responder`, `Host.responder`
* `Procedure.runWith`
-/

namespace DualModule

/-- What answers requests, and goes over to another state with each answer. -/
abbrev Responder (σ : Type) := σ → (r : Request) → r.Reply × σ

/-- A host as a responder. -/
def Host.responder (host : Host) : Responder FileTree := fun t r => r.answer host t

namespace Procedure

variable {α β σ : Type}

/-- Runs a procedure to its end with the answers of a responder. -/
def runWith (answers : Responder σ) : Procedure α → σ → α × σ
  | done a, s => (a, s)
  | ask r next, s =>
    let (reply, s) := answers s r
    (next reply).runWith answers s

@[simp] theorem runWith_done (answers : Responder σ) (a : α) (s : σ) :
    (done a).runWith answers s = (a, s) := rfl

@[simp] theorem runWith_pure (answers : Responder σ) (a : α) (s : σ) :
    (pure a : Procedure α).runWith answers s = (a, s) := rfl

/-- **One procedure after another**, the second with the responder as the first leaves it. -/
@[simp] theorem runWith_bind (answers : Responder σ) (p : Procedure α) (f : α → Procedure β)
    (s : σ) :
    (p >>= f).runWith answers s =
      (f (p.runWith answers s).1).runWith answers (p.runWith answers s).2 := by
  induction p generalizing s with
  | done a => rfl
  | ask r next ih => exact ih _ _

theorem runWith_responder (host : Host) (p : Procedure α) (t : FileTree) :
    p.runWith host.responder t = p.run host t := by
  induction p generalizing t with
  | done a => rfl
  | ask r next ih => exact ih _ _

end Procedure

end DualModule
