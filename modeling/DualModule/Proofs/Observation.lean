import DualModule.Procedure.Trace
import DualModule.Proofs.Attempt
/-!
# What attempts ask for

A condition on the requests of an attempt is handed on from its parts to the whole
(`Attempt.Asks.bind`).  Two conditions are put to use.

**Attempts that only observe** leave the tree alone and start nothing, whether they succeed or not.
What they find does not depend on what was looked at before, so that what a chain of such attempts
finds is read off its parts (`Attempt.Observes.finds_bind_iff`).

**Attempts that ask for settled things only** come to the same on all hosts
(`Attempt.Asks.outcome_congr`).

## Main Definitions

* `Attempt.Asks`: an attempt that asks for what is allowed only
* `Attempt.Observes`: an attempt that only observes
* `Attempt.Finds`: what it comes to
-/

namespace DualModule.Attempt

variable {ε ε' α β : Type} {host : Host} {t : FileTree}

/-! ### Asking -/

/-- An attempt asks for what is allowed only, whatever it is answered. -/
def Asks (allowed : Request → Prop) (a : Attempt ε α) : Prop :=
  (ExceptT.run a).Obeys allowed fun _ => True

section Asks

variable {allowed : Request → Prop}

theorem asks_mk_pure (result : Except ε α) : Asks allowed (ExceptT.mk (pure result)) := trivial

theorem asks_pure (x : α) : Asks allowed (pure x : Attempt ε α) := trivial

theorem asks_throw (e : ε) : Asks allowed (throw e : Attempt ε α) := trivial

theorem Asks.bind {a : Attempt ε α} {f : α → Attempt ε β} (h : a.Asks allowed)
    (hf : ∀ x, (f x).Asks allowed) : (a >>= f).Asks allowed := by
  unfold Asks
  rw [ExceptT.run_bind]
  refine Procedure.Obeys.bind h fun result _ => ?_
  cases result with
  | ok x => exact hf x
  | error e => trivial

theorem Asks.adapt {a : Attempt ε α} (h : a.Asks allowed) (f : ε → ε') :
    Asks allowed (ExceptT.adapt f a : Attempt ε' α) :=
  Procedure.Obeys.map h (Except.mapError f)

theorem asks_explained {p : Procedure (Except SystemError α)}
    (h : p.Obeys allowed fun _ => True) (explain : SystemError → ε) :
    (explained p explain).Asks allowed :=
  h.map (·.mapError explain)

theorem asks_lift {p : Procedure α} (h : p.Obeys allowed fun _ => True) :
    Asks allowed (liftM p : Attempt ε α) :=
  h.map Except.ok

/-- **Settled requests** are answered alike on all hosts. -/
theorem Asks.outcome_congr {a : Attempt ε α} (h : a.Asks (·.isSettled)) {host' : Host}
    (hhere : host'.here = host.here) : a.outcome host' t = a.outcome host t :=
  Procedure.Obeys.run_congr h hhere t

end Asks

/-! ### Observing -/

/-- An attempt only observes, whatever it is answered. -/
def Observes (a : Attempt ε α) : Prop :=
  (ExceptT.run a).Obeys (·.isObservation) fun _ => True

theorem Observes.bind {a : Attempt ε α} {f : α → Attempt ε β} (h : a.Observes)
    (hf : ∀ x, (f x).Observes) : (a >>= f).Observes :=
  Asks.bind h hf

theorem Observes.adapt {a : Attempt ε α} (h : a.Observes) (f : ε → ε') :
    Observes (ExceptT.adapt f a : Attempt ε' α) :=
  Asks.adapt h f

theorem Observes.tree {a : Attempt ε α} (h : a.Observes) (host : Host) (t : FileTree) :
    (a.outcome host t).2 = t :=
  Procedure.Obeys.tree h host t

/-! ### Finding -/

/-- What an attempt comes to on a tree. -/
def Finds (a : Attempt ε α) (host : Host) (t : FileTree) (x : α) : Prop :=
  (a.outcome host t).1 = .ok x

theorem Finds.unique {a : Attempt ε α} {x y : α} (hx : a.Finds host t x) (hy : a.Finds host t y) :
    x = y :=
  Except.ok.inj (hx.symm.trans hy)

theorem finds_mk_pure_iff {result : Except ε α} {x : α} :
    Finds (ExceptT.mk (pure result)) host t x ↔ result = .ok x := Iff.rfl

theorem finds_pure_iff {x y : α} : (pure x : Attempt ε α).Finds host t y ↔ x = y :=
  ⟨Except.ok.inj, congrArg Except.ok⟩

theorem not_finds_throw {e : ε} {x : α} : ¬ (throw e : Attempt ε α).Finds host t x := nofun

/-- **What a chain of observations finds** is what its parts find on one and the same tree. -/
theorem Observes.finds_bind_iff {a : Attempt ε α} {f : α → Attempt ε β} {y : β}
    (h : a.Observes) :
    (a >>= f).Finds host t y ↔ ∃ x, a.Finds host t x ∧ (f x).Finds host t y := by
  unfold Finds
  rcases ha : a.outcome host t with ⟨result, u⟩
  obtain rfl : u = t := by rw [← h.tree host t, ha]
  cases result with
  | error e =>
      rw [outcome_bind_error ha]
      exact ⟨nofun, nofun⟩
  | ok x =>
      rw [outcome_bind_ok ha]
      refine ⟨fun hy => ⟨x, rfl, hy⟩, fun ⟨x', hx, hy⟩ => ?_⟩
      obtain rfl := Except.ok.inj hx
      exact hy

theorem mapError_eq_ok_iff {result : Except ε α} {f : ε → ε'} {x : α} :
    result.mapError f = .ok x ↔ result = .ok x := by
  cases result with
  | ok y => constructor <;> exact fun h => congrArg Except.ok (Except.ok.inj h)
  | error e => exact ⟨nofun, nofun⟩

theorem finds_adapt_iff {a : Attempt ε α} {f : ε → ε'} {x : α} :
    Finds (ExceptT.adapt f a : Attempt ε' α) host t x ↔ a.Finds host t x := by
  have hrun : (outcome host (ExceptT.adapt f a : Attempt ε' α) t).1 =
      (a.outcome host t).1.mapError f := by
    show ((Except.mapError f <$> ExceptT.run a).run host t).1 = _
    rw [map_eq_pure_bind, Procedure.run_bind]
    rfl
  unfold Finds
  rw [hrun, mapError_eq_ok_iff]

theorem finds_explained_iff {p : Procedure (Except SystemError α)} {explain : SystemError → ε}
    {x : α} : (explained p explain).Finds host t x ↔ (p.run host t).1 = .ok x := by
  unfold Finds
  rw [outcome_explained rfl, mapError_eq_ok_iff]

theorem finds_lift_iff {p : Procedure α} {x : α} :
    (liftM p : Attempt ε α).Finds host t x ↔ (p.run host t).1 = x := by
  unfold Finds
  rw [outcome_lift rfl]
  exact ⟨Except.ok.inj, congrArg Except.ok⟩

end DualModule.Attempt

