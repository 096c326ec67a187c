import DualModule.Procedure.Interleaving
import Mathlib.Data.List.Forall2
import Mathlib.Data.List.Induction
/-!
# Ways to do several things together

A procedure asks for one thing at a time, so one procedure is one order of requests.  Something that
has several jobs under way at the same time may be done in many ways: each way is a procedure, and
which of the jobs asks next may depend on every answer so far.

**Jobs together.**  `Joins` says which procedures do some jobs together.  The results are in the
order of the jobs.  A job that fails ends it all as soon as the failure is noticed, whatever the
other jobs have come to by then.  `Merges` is the same for jobs that cannot fail: all of them are
done to their ends.

**Ways are a monad**, so that a program with jobs in it reads as one without.  To do one thing after
another is to do the first in any of its ways, and then, whatever it comes to, the second in any of
its ways.

## Main Definitions

* `Procedure.Joins`, `Procedure.Merges`
* `Ways`, a monad; `Ways.only`, `Ways.join`, `Ways.merge`
* `AttemptWays`, `AttemptWays.together`
-/

namespace DualModule

variable {ε α β : Type}

namespace Procedure

/-- A procedure does some jobs together: it answers them in some order, and comes to their results
or to one of their failures. -/
inductive Joins : List (Procedure (Except ε α)) → Procedure (Except ε (List α)) → Prop
  | finished (results : List α) :
      Joins (results.map fun a => done (.ok a)) (done (.ok results))
  | failed {jobs : List (Procedure (Except ε α))} {e : ε} (h : done (.error e) ∈ jobs) :
      Joins jobs (done (.error e))
  | answer (before after : List (Procedure (Except ε α))) (r : Request)
      (next : r.Reply → Procedure (Except ε α)) (rest : r.Reply → Procedure (Except ε (List α)))
      (hrest : ∀ reply, Joins (before ++ next reply :: after) (rest reply)) :
      Joins (before ++ ask r next :: after) (ask r rest)

/-- A job may be run to its end before the others go on. -/
theorem joins_bind {before after : List (Procedure (Except ε α))} (job : Procedure (Except ε α))
    {rest : Except ε α → Procedure (Except ε (List α))}
    (h : ∀ result, Joins (before ++ done result :: after) (rest result)) :
    Joins (before ++ job :: after) (job >>= rest) := by
  induction job with
  | done result => exact h result
  | ask r next ih => exact .answer before after r next _ ih

theorem joins_mapM_after (finished : List α) (f : β → Attempt ε α) (xs : List β) :
    Joins (finished.map (fun a => done (.ok a)) ++ xs.map fun x => (f x).run)
      (do return finished ++ (← xs.mapM f) : Attempt ε (List α)).run := by
  induction xs generalizing finished with
  | nil => simpa using Joins.finished finished
  | cons x xs ih =>
      have hrun : (do return finished ++ (← (x :: xs).mapM f) : Attempt ε (List α)).run =
          (f x).run >>= fun
            | .ok a => (do return finished ++ [a] ++ (← xs.mapM f) : Attempt ε (List α)).run
            | .error e => done (.error e) := by
        simp only [List.mapM_cons, bind_assoc, pure_bind, List.append_assoc, List.singleton_append,
          ExceptT.run_bind]
        rfl
      rw [hrun, List.map_cons]
      refine joins_bind _ fun result => ?_
      cases result with
      | ok a => simpa using ih (finished ++ [a])
      | error e => exact .failed (List.mem_append_right _ List.mem_cons_self)

/-- **One job after another** is a way to do them together. -/
theorem joins_mapM (f : β → Attempt ε α) (xs : List β) :
    Joins (xs.map fun x => (f x).run) (xs.mapM f).run := by
  simpa using joins_mapM_after [] f xs

theorem joins_mapM_reverse_before (finished : List α) (f : β → Attempt ε α) (xs : List β) :
    Joins (xs.map (fun x => (f x).run) ++ finished.map fun a => done (.ok a))
      (do return (← xs.reverse.mapM f).reverse ++ finished : Attempt ε (List α)).run := by
  induction xs using List.reverseRecOn generalizing finished with
  | nil => simpa using Joins.finished finished
  | append_singleton xs x ih =>
      have hrun : (do return (← (xs ++ [x]).reverse.mapM f).reverse ++ finished :
            Attempt ε (List α)).run =
          (f x).run >>= fun
            | .ok a => (do return (← xs.reverse.mapM f).reverse ++ a :: finished :
                Attempt ε (List α)).run
            | .error e => done (.error e) := by
        have hreverse : (xs ++ [x]).reverse = x :: xs.reverse := List.reverse_concat
        simp only [hreverse, List.mapM_cons, bind_assoc, pure_bind, List.reverse_cons,
          List.append_assoc, List.singleton_append, ExceptT.run_bind]
        rfl
      rw [hrun, List.map_append, List.append_assoc]
      refine joins_bind _ fun result => ?_
      cases result with
      | ok a => simpa using ih (a :: finished)
      | error e => exact .failed (List.mem_append_right _ List.mem_cons_self)

/-- **The last job first** is another way. -/
theorem joins_mapM_reverse (f : β → Attempt ε α) (xs : List β) :
    Joins (xs.map fun x => (f x).run) (do return (← xs.reverse.mapM f).reverse).run := by
  simpa using joins_mapM_reverse_before [] f xs

/-- A procedure does some jobs together that cannot fail: it answers them in some order, and comes
to the results of all of them. -/
inductive Merges : List (Procedure α) → Procedure (List α) → Prop
  | finished (results : List α) : Merges (results.map done) (done results)
  | answer (before after : List (Procedure α)) (r : Request) (next : r.Reply → Procedure α)
      (rest : r.Reply → Procedure (List α))
      (hrest : ∀ reply, Merges (before ++ next reply :: after) (rest reply)) :
      Merges (before ++ ask r next :: after) (ask r rest)

/-- A job may be run to its end before the others go on. -/
theorem merges_bind {before after : List (Procedure α)} (job : Procedure α)
    {rest : α → Procedure (List α)}
    (h : ∀ result, Merges (before ++ done result :: after) (rest result)) :
    Merges (before ++ job :: after) (job >>= rest) := by
  induction job with
  | done result => exact h result
  | ask r next ih => exact .answer before after r next _ ih

theorem merges_mapM_after (finished : List α) (f : β → Procedure α) (xs : List β) :
    Merges (finished.map done ++ xs.map f) (do return finished ++ (← xs.mapM f)) := by
  induction xs generalizing finished with
  | nil => simpa using Merges.finished finished
  | cons x xs ih =>
      have hrun : (do return finished ++ (← (x :: xs).mapM f) : Procedure (List α)) =
          f x >>= fun a => do return finished ++ [a] ++ (← xs.mapM f) := by
        simp only [List.mapM_cons, bind_assoc, pure_bind, List.append_assoc, List.singleton_append]
      rw [hrun, List.map_cons]
      exact merges_bind _ fun a => by simpa using ih (finished ++ [a])

/-- **One job after another** is a way to do them together. -/
theorem merges_mapM (f : β → Procedure α) (xs : List β) : Merges (xs.map f) (xs.mapM f) := by
  simpa [-pure_eq] using merges_mapM_after [] f xs

/-- **Running jobs together** is running them next to each other. -/
theorem Merges.interleaved {jobs : List (Procedure α)} {p : Procedure (List α)}
    (h : Merges jobs p) (host : Host) (t : FileTree) :
    Interleaved host jobs t (p.run host t).1 (p.run host t).2 := by
  induction h generalizing t with
  | finished results => exact .finished results t
  | answer before after r next rest _ ih => exact .step (.answer before after r next t) (ih _ _)

end Procedure

/-- The ways in which something can be done. -/
def Ways (α : Type) : Type := Procedure α → Prop

namespace Ways

instance : Membership (Procedure α) (Ways α) := ⟨fun w p => w p⟩

/-- There is only one way. -/
def only (p : Procedure α) : Ways α := (· = p)

instance : Monad Ways where
  pure a := only (pure a)
  bind w f := fun q => ∃ p ∈ w, ∃ next : _ → Procedure _, (∀ a, next a ∈ f a) ∧ q = p >>= next

/-- The ways to do several things together, each of them in one of its own ways. -/
def join (jobs : List (Ways (Except ε α))) : Ways (Except ε (List α)) :=
  fun p => ∃ chosen, List.Forall₂ (· ∈ ·) chosen jobs ∧ Procedure.Joins chosen p

/-- The ways to do several things together that cannot fail, each of them in one of its own ways. -/
def merge (jobs : List (Ways α)) : Ways (List α) :=
  fun p => ∃ chosen, List.Forall₂ (· ∈ ·) chosen jobs ∧ Procedure.Merges chosen p

theorem mem_only (p : Procedure α) : p ∈ only p := rfl

theorem mem_bind {w : Ways α} {f : α → Ways β} {p : Procedure α} {next : α → Procedure β}
    (hp : p ∈ w) (hnext : ∀ a, next a ∈ f a) : (p >>= next) ∈ (w >>= f) :=
  ⟨p, hp, next, hnext, rfl⟩

/-- **One thing after another** is a way to do them together. -/
theorem mapM_mem_merge {w : β → Ways α} {p : β → Procedure α} {xs : List β}
    (h : ∀ x ∈ xs, p x ∈ w x) : xs.mapM p ∈ merge (xs.map w) := by
  refine ⟨xs.map p, ?_, Procedure.merges_mapM p xs⟩
  rw [List.forall₂_map_left_iff, List.forall₂_map_right_iff, List.forall₂_same]
  exact h

end Ways

/-- The ways to make an attempt. -/
abbrev AttemptWays (ε α : Type) := ExceptT ε Ways α

namespace AttemptWays

/-- There is only one way. -/
def only (a : Attempt ε α) : AttemptWays ε α := ExceptT.mk (.only a.run)

/-- The ways to make several attempts together, each of them in one of its own ways. -/
def together (jobs : List (AttemptWays ε α)) : AttemptWays ε (List α) :=
  ExceptT.mk (.join (jobs.map ExceptT.run))

/-- The attempt is one of the ways. -/
def Has (w : AttemptWays ε α) (a : Attempt ε α) : Prop := a.run ∈ w.run

theorem has_only (a : Attempt ε α) : (only a).Has a := rfl

theorem has_pure (x : α) : (pure x : AttemptWays ε α).Has (pure x) := rfl

theorem Has.bind {w : AttemptWays ε α} {f : α → AttemptWays ε β} {a : Attempt ε α}
    {g : α → Attempt ε β} (h : w.Has a) (hf : ∀ x, (f x).Has (g x)) : (w >>= f).Has (a >>= g) := by
  unfold Has
  rw [ExceptT.run_bind, ExceptT.run_bind]
  refine Ways.mem_bind h fun result => ?_
  cases result with
  | ok x => exact hf x
  | error e => rfl

/-- **One attempt after another** is a way to make them together. -/
theorem has_mapM {f : β → AttemptWays ε α} {g : β → Attempt ε α} {xs : List β}
    (h : ∀ x ∈ xs, (f x).Has (g x)) : (together (xs.map f)).Has (xs.mapM g) := by
  refine ⟨xs.map fun x => (g x).run, ?_, Procedure.joins_mapM g xs⟩
  rw [List.map_map, List.forall₂_map_left_iff, List.forall₂_map_right_iff, List.forall₂_same]
  exact h

/-- **The last attempt first** is another way. -/
theorem has_mapM_reverse {f : β → AttemptWays ε α} {g : β → Attempt ε α} {xs : List β}
    (h : ∀ x ∈ xs, (f x).Has (g x)) :
    (together (xs.map f)).Has (do return (← xs.reverse.mapM g).reverse) := by
  refine ⟨xs.map fun x => (g x).run, ?_, Procedure.joins_mapM_reverse g xs⟩
  rw [List.map_map, List.forall₂_map_left_iff, List.forall₂_map_right_iff, List.forall₂_same]
  exact h

end AttemptWays

end DualModule
