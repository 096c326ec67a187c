import DualModule.Procedure.Responder
/-!
# What a procedure asks for

The requests that a procedure issues while it is run, in order.

**A procedure obeys** a condition on requests, and one on results, if it does so whatever it is
answered.  Then it does so on every host and every tree, and the conditions are handed on from the
parts of a procedure to the whole.

**With a responder**, too, a run asks for something in order (`Procedure.traceWith`); a host is one
of the responders.

**Observations** are the requests that change nothing and start nothing.  **Settled** are those that
the tree answers, so that two hosts with relative paths in the same place answer alike.

## Main Definitions

* `Procedure.trace`, `Procedure.traceWith`
* `Procedure.Obeys`
* `Request.isObservation`, `Request.isSettled`
-/

namespace DualModule

/-- Whether a request leaves every tree alone and starts no program. -/
def Request.isObservation : Request → Bool
  | canonicalize _ | list _ | test _ | read _ | expand _ => true
  | link _ _ | unlink _ | write _ _ | removeTree _ | makeDirectories _ | launch _ _ => false

theorem Request.answer_of_isObservation {r : Request} (h : r.isObservation) (host : Host)
    (t : FileTree) : (r.answer host t).2 = t := by
  cases r <;> first | rfl | exact absurd h Bool.false_ne_true

/-- Whether a host has no say in the answer, apart from where relative paths start: directories are
listed in its order, and programs do what they do there. -/
def Request.isSettled : Request → Bool
  | list _ | launch _ _ => false
  | canonicalize _ | test _ | link _ _ | unlink _ | read _ | write _ _ | removeTree _
  | makeDirectories _ | expand _ => true

theorem Request.answer_of_isSettled {r : Request} (h : r.isSettled) {host host' : Host}
    (hhere : host'.here = host.here) (t : FileTree) : r.answer host' t = r.answer host t := by
  cases r <;> first | exact absurd h Bool.false_ne_true | simp only [answer, hhere]

namespace Procedure

variable {α β γ : Type}

/-- The requests of a run, in order. -/
def trace (host : Host) : Procedure α → FileTree → List Request
  | done _, _ => []
  | ask r next, t =>
    let (reply, u) := r.answer host t
    r :: (next reply).trace host u

@[simp] theorem trace_done (host : Host) (a : α) (t : FileTree) : (done a).trace host t = [] := rfl

@[simp] theorem trace_pure (host : Host) (a : α) (t : FileTree) :
    (pure a : Procedure α).trace host t = [] := rfl

@[simp] theorem trace_ask (host : Host) (r : Request) (next : r.Reply → Procedure α)
    (t : FileTree) :
    (ask r next).trace host t =
      r :: (next (r.answer host t).1).trace host (r.answer host t).2 := rfl

/-- **One procedure after another** issues the requests of both, those of the second on what the
first leaves. -/
@[simp] theorem trace_bind (host : Host) (p : Procedure α) (f : α → Procedure β) (t : FileTree) :
    (p >>= f).trace host t =
      p.trace host t ++ (f (p.run host t).1).trace host (p.run host t).2 := by
  induction p generalizing t with
  | done a => rfl
  | ask r next ih => exact congrArg (r :: ·) (ih _ _)

/-- The requests of a run with the answers of a responder, in order. -/
def traceWith {σ : Type} (answers : Responder σ) : Procedure α → σ → List Request
  | done _, _ => []
  | ask r next, s =>
    let (reply, s) := answers s r
    r :: (next reply).traceWith answers s

section TraceWith

variable {σ : Type} (answers : Responder σ)

@[simp] theorem traceWith_done (a : α) (s : σ) : (done a).traceWith answers s = [] := rfl

@[simp] theorem traceWith_pure (a : α) (s : σ) :
    (pure a : Procedure α).traceWith answers s = [] := rfl

/-- **One procedure after another** issues the requests of both, those of the second with the
responder as the first leaves it. -/
@[simp] theorem traceWith_bind (p : Procedure α) (f : α → Procedure β) (s : σ) :
    (p >>= f).traceWith answers s =
      p.traceWith answers s ++
        (f (p.runWith answers s).1).traceWith answers (p.runWith answers s).2 := by
  induction p generalizing s with
  | done a => rfl
  | ask r next ih => exact congrArg (r :: ·) (ih _ _)

theorem traceWith_responder (host : Host) (p : Procedure α) (t : FileTree) :
    p.traceWith host.responder t = p.trace host t := by
  induction p generalizing t with
  | done a => rfl
  | ask r next ih => exact congrArg (r :: ·) (ih _ _)

end TraceWith

/-! ### Whatever the answers -/

/-- Whatever it is answered, a procedure asks for what is allowed only, and comes to a result as
it should be. -/
def Obeys (allowed : Request → Prop) (good : α → Prop) : Procedure α → Prop
  | done a => good a
  | ask r next => allowed r ∧ ∀ reply, (next reply).Obeys allowed good

variable {allowed : Request → Prop} {good : α → Prop} {p : Procedure α}

/-- There is nothing to obey. -/
theorem obeys_true (p : Procedure α) : p.Obeys (fun _ => True) fun _ => True := by
  induction p with
  | done a => trivial
  | ask r next ih => exact ⟨trivial, ih⟩

theorem obeys_observation {r : Request} (h : r.isObservation = true) :
    (request r).Obeys (·.isObservation) fun _ => True := ⟨h, fun _ => trivial⟩

theorem obeys_settled {r : Request} (h : r.isSettled = true) :
    (request r).Obeys (·.isSettled) fun _ => True := ⟨h, fun _ => trivial⟩

theorem Obeys.bind {fine : β → Prop} {f : α → Procedure β} (h : p.Obeys allowed good)
    (hf : ∀ a, good a → (f a).Obeys allowed fine) : (p >>= f).Obeys allowed fine := by
  induction p with
  | done a => exact hf a h
  | ask r next ih => exact ⟨h.1, fun reply => ih reply (h.2 reply)⟩

theorem Obeys.map (h : p.Obeys allowed good) (f : α → β) :
    (f <$> p).Obeys allowed fun _ => True := by
  rw [map_eq_pure_bind]
  exact h.bind fun _ _ => trivial

theorem Obeys.resultWith (h : p.Obeys allowed good) {σ : Type} (answers : Responder σ) (s : σ) :
    good (p.runWith answers s).1 := by
  induction p generalizing s with
  | done a => exact h
  | ask r next ih => exact ih _ (h.2 _) _

theorem Obeys.traceWith (h : p.Obeys allowed good) {σ : Type} (answers : Responder σ) (s : σ) :
    ∀ r ∈ p.traceWith answers s, allowed r := by
  induction p generalizing s with
  | done a => exact List.forall_mem_nil _
  | ask r next ih => exact List.forall_mem_cons.2 ⟨h.1, ih _ (h.2 _) _⟩

theorem Obeys.result (h : p.Obeys allowed good) (host : Host) (t : FileTree) :
    good (p.run host t).1 :=
  runWith_responder host p t ▸ h.resultWith host.responder t

theorem Obeys.trace (h : p.Obeys allowed good) (host : Host) (t : FileTree) :
    ∀ r ∈ p.trace host t, allowed r :=
  traceWith_responder host p t ▸ h.traceWith host.responder t

/-- **Who only observes** leaves the tree alone. -/
theorem Obeys.tree (h : p.Obeys (·.isObservation) good) (host : Host) (t : FileTree) :
    (p.run host t).2 = t := by
  induction p generalizing t with
  | done a => rfl
  | ask r next ih =>
      rw [run_ask, ih _ (h.2 _)]
      exact Request.answer_of_isObservation h.1 host t

/-- **Who asks for settled things only** comes to the same on all hosts. -/
theorem Obeys.run_congr (h : p.Obeys (·.isSettled) good) {host host' : Host}
    (hhere : host'.here = host.here) (t : FileTree) : p.run host' t = p.run host t := by
  induction p generalizing t with
  | done a => rfl
  | ask r next ih =>
      rw [run_ask, run_ask, Request.answer_of_isSettled h.1 hhere]
      exact ih _ (h.2 _) _

end Procedure

end DualModule
