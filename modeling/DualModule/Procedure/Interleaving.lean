import DualModule.Procedure
/-!
# Procedures next to each other

Procedures may be under way at the same time on one tree.  Each request is answered as a whole, and
between two requests of one procedure any number of requests of others may be answered.

**Running one after another is one of the ways**, so a statement about all interleavings says
something about it too.

## Main Definitions

* `Procedure.Advances`: one request of one of several procedures is answered
* `Procedure.Interleaved`: several procedures run to their ends
* `Procedure.interleaved_mapM`
-/

namespace DualModule.Procedure

variable {α β : Type}

/-- One of several procedures gets an answer. -/
inductive Advances (host : Host) :
    List (Procedure α) → FileTree → List (Procedure α) → FileTree → Prop
  | answer (before after : List (Procedure α)) (r : Request) (next : r.Reply → Procedure α)
      (t : FileTree) :
      Advances host (before ++ ask r next :: after) t
        (before ++ next (r.answer host t).1 :: after) (r.answer host t).2

/-- Several procedures run to their ends in some order of answers: their results, and the tree that
they leave. -/
inductive Interleaved (host : Host) :
    List (Procedure α) → FileTree → List α → FileTree → Prop
  | finished (results : List α) (t : FileTree) :
      Interleaved host (results.map done) t results t
  | step {ps qs : List (Procedure α)} {t u v : FileTree} {results : List α} :
      Advances host ps t qs u → Interleaved host qs u results v → Interleaved host ps t results v

/-- A procedure may be run to its end before the others go on. -/
theorem interleaved_of_run {host : Host} {before after : List (Procedure α)} (p : Procedure α)
    {t u : FileTree} {results : List α}
    (h : Interleaved host (before ++ done (p.run host t).1 :: after) (p.run host t).2 results u) :
    Interleaved host (before ++ p :: after) t results u := by
  induction p generalizing t with
  | done a => exact h
  | ask r next ih => exact .step (.answer before after r next t) (ih _ h)

theorem interleaved_mapM_after {host : Host} (finished : List α) (f : β → Procedure α)
    (xs : List β) (t : FileTree) :
    Interleaved host (finished.map done ++ xs.map f) t
      (finished ++ ((xs.mapM f).run host t).1) ((xs.mapM f).run host t).2 := by
  induction xs generalizing finished t with
  | nil => simpa using Interleaved.finished finished t
  | cons x xs ih =>
    refine interleaved_of_run (f x) ?_
    have := ih (finished ++ [((f x).run host t).1]) ((f x).run host t).2
    simpa using this

/-- **One after another is an interleaving.** -/
theorem interleaved_mapM {host : Host} (f : β → Procedure α) (xs : List β) (t : FileTree) :
    Interleaved host (xs.map f) t ((xs.mapM f).run host t).1 ((xs.mapM f).run host t).2 := by
  simpa using interleaved_mapM_after [] f xs t

/-- Procedures can always be run to their ends. -/
theorem exists_interleaved (host : Host) (ps : List (Procedure α)) (t : FileTree) :
    ∃ results u, Interleaved host ps t results u := by
  have hrun : Interleaved host (ps.map id) t _ _ := interleaved_mapM id ps t
  rw [List.map_id] at hrun
  exact ⟨_, _, hrun⟩

/-- A procedure that is done may be next to the others. -/
theorem Interleaved.cons_done {host : Host} {ps : List (Procedure α)} {t u : FileTree}
    {results : List α} (h : Interleaved host ps t results u) (a : α) :
    Interleaved host (done a :: ps) t (a :: results) u := by
  induction h with
  | finished results t => exact .finished (a :: results) t
  | step hstep _ ih =>
      cases hstep with
      | answer before after r next => exact .step (.answer (done a :: before) after r next _) ih

theorem Advances.perm {host : Host} {ps ps' qs : List (Procedure α)} {t u : FileTree}
    (h : Advances host ps t ps' u) (hperm : ps.Perm qs) :
    ∃ qs', ps'.Perm qs' ∧ Advances host qs t qs' u := by
  cases h with
  | answer before after r next =>
      obtain ⟨front, back, rfl⟩ := List.append_of_mem (hperm.mem_iff.1
        (List.mem_append_right before (List.mem_cons_self (l := after))))
      have hrest : (before ++ after).Perm (front ++ back) :=
        ((List.perm_middle.symm.trans hperm).trans List.perm_middle).cons_inv
      exact ⟨_, (List.perm_middle.trans (hrest.cons _)).trans List.perm_middle.symm,
        .answer front back r next t⟩

/-- **The order of the procedures** is that of the results, and makes no other difference. -/
theorem Interleaved.perm {host : Host} {ps qs : List (Procedure α)} {t u : FileTree}
    {results : List α} (h : Interleaved host ps t results u) (hperm : ps.Perm qs) :
    ∃ results', results.Perm results' ∧ Interleaved host qs t results' u := by
  induction h generalizing qs with
  | finished results t =>
      have hdone : ∀ q ∈ qs, done (q.run host t).1 = q := by
        intro q hq
        obtain ⟨a, -, rfl⟩ := List.mem_map.1 (hperm.mem_iff.2 hq)
        rfl
      have hqs : (qs.map fun q => (q.run host t).1).map done = qs := by
        rw [List.map_map]
        exact (List.map_congr_left hdone).trans (List.map_id _)
      refine ⟨qs.map fun q => (q.run host t).1, ?_, ?_⟩
      · have hresults := hperm.map fun q => (q.run host t).1
        simpa [Function.comp_def] using hresults
      · have hfinished : Interleaved host _ t _ t :=
          .finished (qs.map fun q => (q.run host t).1) t
        rwa [hqs] at hfinished
  | step hstep _ ih =>
      obtain ⟨qs', hperm', hstep'⟩ := hstep.perm hperm
      obtain ⟨results', hresults, hrun⟩ := ih hperm'
      exact ⟨results', hresults, .step hstep' hrun⟩

end DualModule.Procedure
