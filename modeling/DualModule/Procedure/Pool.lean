import DualModule.Procedure.Interleaving
/-!
# Pools of jobs

Of many jobs, only so many may be under way at a time.  A pool holds the jobs that wait, the jobs
that are under way, and the results so far, in the order in which jobs were finished.  It may start
the next job when there is room, answer a request of any job under way, or finish any job that is
done, and it is free in which of these it does.

A job that has failed is never finished, so that a pool comes to its end only if no job fails.

**Pools are interleavings** (`Pool.Reaches.interleaved`): which jobs were under way together, and in
which order they were finished, makes no difference to what they did.

## Main Definitions

* `Pool`, `Pool.Step`, `Pool.Reaches`
-/

namespace DualModule

variable {ε α : Type}

/-- Jobs that wait, jobs that are under way, and results. -/
structure Pool (ε α : Type) where
  waiting : List (Procedure (Except ε α))
  running : List (Procedure (Except ε α))
  results : List α

namespace Pool

open Procedure

/-- What a pool may do, with at most `limit` jobs under way. -/
inductive Step (host : Host) (limit : Nat) :
    Pool ε α → FileTree → Pool ε α → FileTree → Prop
  | start (job : Procedure (Except ε α)) (waiting running : List (Procedure (Except ε α)))
      (results : List α) (t : FileTree) (hlimit : running.length < limit) :
      Step host limit ⟨job :: waiting, running, results⟩ t ⟨waiting, running ++ [job], results⟩ t
  | answer {running running' : List (Procedure (Except ε α))} {t u : FileTree}
      (waiting : List (Procedure (Except ε α))) (results : List α)
      (hanswer : Advances host running t running' u) :
      Step host limit ⟨waiting, running, results⟩ t ⟨waiting, running', results⟩ u
  | finish (waiting before after : List (Procedure (Except ε α))) (a : α) (results : List α)
      (t : FileTree) :
      Step host limit ⟨waiting, before ++ done (.ok a) :: after, results⟩ t
        ⟨waiting, before ++ after, results ++ [a]⟩ t

/-- What a pool may come to in some steps. -/
inductive Reaches (host : Host) (limit : Nat) :
    Pool ε α → FileTree → Pool ε α → FileTree → Prop
  | refl (pool : Pool ε α) (t : FileTree) : Reaches host limit pool t pool t
  | step {pool pool' pool'' : Pool ε α} {t u v : FileTree} :
      Step host limit pool t pool' u → Reaches host limit pool' u pool'' v →
        Reaches host limit pool t pool'' v

variable {host : Host} {limit : Nat} {pool pool' pool'' : Pool ε α} {t u v : FileTree}

theorem Reaches.trans (h : Reaches host limit pool t pool' u)
    (h' : Reaches host limit pool' u pool'' v) : Reaches host limit pool t pool'' v := by
  induction h with
  | refl pool t => exact h'
  | step hstep _ ih => exact .step hstep (ih h')

/-- **No more jobs than allowed** are ever under way. -/
theorem Reaches.running_le (h : Reaches host limit pool t pool' u)
    (hrunning : pool.running.length ≤ limit) : pool'.running.length ≤ limit := by
  induction h with
  | refl pool t => exact hrunning
  | step hstep _ ih =>
      refine ih ?_
      cases hstep with
      | start job waiting running results t hlimit =>
          rw [List.length_append]
          exact hlimit
      | answer waiting results hanswer =>
          cases hanswer with
          | answer before after r next => simpa using hrunning
      | finish waiting before after a results t =>
          simp only [List.length_append, List.length_cons] at hrunning ⊢
          omega

/-- All jobs that have not been finished. -/
def jobs (pool : Pool ε α) : List (Procedure (Except ε α)) := pool.running ++ pool.waiting

/-- **What a pool does** is part of an interleaving of its jobs: if the jobs that are left are run
to their ends, then all jobs have been, and the results are those of the jobs that were finished and
of those that were left. -/
theorem Reaches.interleaved {results : List (Except ε α)} (h : Reaches host limit pool t pool' u)
    (hrun : Interleaved host pool'.jobs u results v) :
    ∃ results', Interleaved host pool.jobs t results' v ∧
      (pool.results.map Except.ok ++ results').Perm (pool'.results.map Except.ok ++ results) := by
  induction h with
  | refl pool t => exact ⟨results, hrun, .refl _⟩
  | step hstep _ ih =>
      obtain ⟨results', hrun', hperm⟩ := ih hrun
      cases hstep with
      | start job waiting running finished t hlimit =>
          refine ⟨results', ?_, hperm⟩
          simpa [jobs] using hrun'
      | answer waiting finished hanswer =>
          cases hanswer with
          | answer before after r next =>
              refine ⟨results', ?_, hperm⟩
              simp only [jobs, List.append_assoc, List.cons_append] at hrun' ⊢
              exact .step (.answer before (after ++ waiting) r next _) hrun'
      | finish waiting before after a finished t =>
          -- the job that was finished is an idle one among the others
          have hmiddle : (done (.ok a) :: (before ++ after ++ waiting)).Perm
              (before ++ done (.ok a) :: after ++ waiting) := by
            simpa using List.perm_middle.symm
          obtain ⟨results'', hresults, hrun''⟩ := (hrun'.cons_done (.ok a)).perm hmiddle
          refine ⟨results'', hrun'', ?_⟩
          refine (hresults.symm.append_left _).trans (.trans ?_ hperm)
          simp

/-! ### Coming to an end -/

/-- A job under way may be run to its end. -/
theorem reaches_run (limit : Nat) (waiting running : List (Procedure (Except ε α)))
    (results : List α) (job : Procedure (Except ε α)) (t : FileTree) :
    Reaches host limit ⟨waiting, job :: running, results⟩ t
      ⟨waiting, done (job.run host t).1 :: running, results⟩ (job.run host t).2 := by
  induction job generalizing t with
  | done a => exact .refl _ _
  | ask r next ih => exact .step (.answer waiting results (.answer [] running r next t)) (ih _ _)

/-- No interleaving of the jobs has one fail. -/
def Succeeds (host : Host) (jobs : List (Procedure (Except ε α))) (t : FileTree) : Prop :=
  ∀ results u, Interleaved host jobs t results u → ∀ result ∈ results, ∃ a, result = .ok a

/-- A job may be run and finished before the others. -/
theorem Succeeds.reaches {job : Procedure (Except ε α)}
    {running waiting : List (Procedure (Except ε α))} {results : List α}
    (h : Succeeds host (job :: (running ++ waiting)) t) :
    ∃ a, Reaches host limit ⟨waiting, job :: running, results⟩ t
        ⟨waiting, running, results ++ [a]⟩ (job.run host t).2 ∧
      Succeeds host (running ++ waiting) (job.run host t).2 := by
  have hfirst : ∀ {results u}, Interleaved host (running ++ waiting) (job.run host t).2 results u →
      Interleaved host (job :: (running ++ waiting)) t ((job.run host t).1 :: results) u := by
    intro results u hrun
    have hbefore : Interleaved host ([] ++ job :: (running ++ waiting)) t _ u :=
      interleaved_of_run job (hrun.cons_done _)
    exact hbefore
  obtain ⟨rest, u, hrest⟩ := exists_interleaved host (running ++ waiting) (job.run host t).2
  obtain ⟨a, ha⟩ := h _ _ (hfirst hrest) _ List.mem_cons_self
  refine ⟨a, (reaches_run limit waiting running results job t).trans ?_, ?_⟩
  · rw [ha]
    exact .step (.finish waiting [] running a results _) (.refl _ _)
  · intro results u hrun result hresult
    exact h _ _ (hfirst hrun) result (List.mem_cons_of_mem _ hresult)

/-- **On the way to the end** no job that is left can fail. -/
theorem Succeeds.of_reaches (h : Succeeds host pool.jobs t)
    (hreaches : Reaches host limit pool t pool' u) : Succeeds host pool'.jobs u := by
  intro results v hrun result hresult
  obtain ⟨results', hrun', hperm⟩ := hreaches.interleaved hrun
  have hmem : result ∈ pool.results.map Except.ok ++ results' :=
    hperm.mem_iff.2 (List.mem_append_right _ hresult)
  rcases List.mem_append.1 hmem with hmem | hmem
  · obtain ⟨a, -, rfl⟩ := List.mem_map.1 hmem
    exact ⟨a, rfl⟩
  · exact h results' v hrun' result hmem

/-- **A pool whose jobs succeed** may come to its end. -/
theorem Succeeds.exists_finished (hlimit : 0 < limit) (h : Succeeds host pool.jobs t) :
    ∃ results u, Reaches host limit pool t ⟨[], [], results⟩ u := by
  obtain ⟨waiting, running, results⟩ := pool
  -- first the jobs that are under way, one after another, and then those that wait
  induction waiting generalizing running results t with
  | nil =>
      induction running generalizing results t with
      | nil => exact ⟨results, t, .refl _ _⟩
      | cons job running ih =>
          obtain ⟨a, hreaches, hrest⟩ := Succeeds.reaches h
          obtain ⟨results', u, hfinished⟩ := ih _ hrest
          exact ⟨results', u, hreaches.trans hfinished⟩
  | cons job waiting ih =>
      induction running generalizing results t with
      | nil =>
          obtain ⟨results', u, hfinished⟩ := ih [job] results h
          exact ⟨results', u, .step (.start job waiting [] results t hlimit) hfinished⟩
      | cons first running ih' =>
          obtain ⟨a, hreaches, hrest⟩ := Succeeds.reaches h
          obtain ⟨results', u, hfinished⟩ := ih' _ hrest
          exact ⟨results', u, hreaches.trans hfinished⟩

end Pool

end DualModule
