import DualModule.FileTree.Editing
import DualModule.Procedure
/-!
# Outcomes of attempts

An attempt on a tree comes to a result or a failure, and leaves a tree either way
(`Attempt.outcome`).  The rules here follow the ways in which attempts are put together, so that a
pass is run by rewriting its parts one after another:

* `outcome_bind_ok`, `outcome_bind_error` — one attempt after another,
* `outcome_explained`, `outcome_lift` — single requests,
* `outcome_mapM` — one attempt for each element of a list.

`Host.plain` and `FileTree.ofEntries` are for small examples, which are run by evaluation.
-/

namespace DualModule

namespace Attempt

variable {ε α β : Type} {host : Host} {t u : FileTree}

/-- What an attempt comes to, and the tree that it leaves. -/
def outcome (host : Host) (a : Attempt ε α) (t : FileTree) : Except ε α × FileTree :=
  (ExceptT.run a).run host t

@[simp] theorem outcome_pure (x : α) : (pure x : Attempt ε α).outcome host t = (.ok x, t) := rfl

theorem outcome_bind (a : Attempt ε α) (f : α → Attempt ε β) :
    (a >>= f).outcome host t =
      match a.outcome host t with
      | (.ok x, u) => (f x).outcome host u
      | (.error e, u) => (.error e, u) := by
  unfold outcome
  rw [ExceptT.run_bind, Procedure.run_bind]
  rcases (ExceptT.run a).run host t with ⟨result, u⟩
  cases result <;> rfl

theorem outcome_bind_ok {a : Attempt ε α} {x : α} (h : a.outcome host t = (.ok x, u))
    (f : α → Attempt ε β) : (a >>= f).outcome host t = (f x).outcome host u := by
  rw [outcome_bind, h]

theorem outcome_bind_error {a : Attempt ε α} {e : ε} (h : a.outcome host t = (.error e, u))
    (f : α → Attempt ε β) : (a >>= f).outcome host t = (.error e, u) := by
  rw [outcome_bind, h]

/-! ### Single requests -/

theorem run_request (host : Host) (r : Request) (t : FileTree) :
    (Procedure.request r).run host t = r.answer host t := rfl

theorem outcome_explained {p : Procedure (Except SystemError α)} {reply : Except SystemError α}
    (h : p.run host t = (reply, u)) (explain : SystemError → ε) :
    (explained p explain).outcome host t = (reply.mapError explain, u) := by
  unfold outcome explained
  rw [ExceptT.run_mk, map_eq_pure_bind, Procedure.run_bind, h]
  rfl

/-- A request whose refusal is no failure. -/
theorem outcome_lift {p : Procedure α} {x : α} (h : p.run host t = (x, u)) :
    (liftM p : Attempt ε α).outcome host t = (.ok x, u) := by
  show (Except.ok <$> p : Procedure (Except ε α)).run host t = _
  rw [map_eq_pure_bind, Procedure.run_bind, h]
  rfl

/-! ### Lists -/

theorem outcome_mapM_cons {f : α → Attempt ε β} {x : α} {xs : List α} {y : β} {ys : List β}
    {v : FileTree} (hx : (f x).outcome host t = (.ok y, u))
    (hxs : (xs.mapM f).outcome host u = (.ok ys, v)) :
    ((x :: xs).mapM f).outcome host t = (.ok (y :: ys), v) := by
  rw [List.mapM_cons, outcome_bind_ok hx, outcome_bind_ok hxs, outcome_pure]

/-- Attempts that all succeed and leave the tree alone. -/
theorem outcome_mapM {f : α → Attempt ε β} {g : α → β} {xs : List α}
    (h : ∀ x ∈ xs, (f x).outcome host t = (.ok (g x), t)) :
    (xs.mapM f).outcome host t = (.ok (xs.map g), t) := by
  induction xs with
  | nil => rfl
  | cons x xs ih =>
      exact outcome_mapM_cons (h x List.mem_cons_self)
        (ih fun y hy => h y (List.mem_cons_of_mem _ hy))

end Attempt

/-- A host that lists directories as they come, starts relative paths at the root and has no
programs. -/
def Host.plain : Host where
  here := []
  arrange _ entries := entries
  arrange_perm _ entries := .refl entries
  launch t _ _ := (.error .unsupported, t)

/-- The tree with these entries, each put where its path says. -/
def FileTree.ofEntries (entries : List (String × Node)) : FileTree :=
  entries.foldl (fun t entry =>
    match t.install [] (.ofText entry.1.toList) entry.2 with
    | .ok u => u
    | .error _ => t) .empty

end DualModule
