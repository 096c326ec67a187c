import DualModule.Procedure.Ways
import DualModule.Proofs.Attempt
/-!
# What jobs keep, together

Jobs that get in each other's way do not come to what they come to alone.  What can still be said of
them is what each of them keeps: if every job keeps a property of the tree, whatever the others make
of it meanwhile, then all of them keep it together (`Procedure.Joins.achieves`).

A job is therefore described for every tree with the property at every request, and not for the tree
that it began with.

## Main Definitions

* `Procedure.Keeps`, `Procedure.Achieves`
-/

namespace DualModule

variable {ε α β : Type} {host : Host} {I : FileTree → Prop} {t : FileTree}

namespace Procedure

/-- Asked on trees with a property, a procedure leaves trees with the property, and what it comes to
is good. -/
def Keeps (host : Host) (I : FileTree → Prop) (good : α → Prop) : Procedure α → Prop
  | done a => good a
  | ask r next =>
    ∀ t, I t → I (r.answer host t).2 ∧ (next (r.answer host t).1).Keeps host I good

namespace Keeps

variable {good : α → Prop} {p : Procedure α}

/-- **Alone**, the procedure leaves a tree with the property. -/
theorem run (h : p.Keeps host I good) (ht : I t) :
    good (p.run host t).1 ∧ I (p.run host t).2 := by
  induction p generalizing t with
  | done a => exact ⟨h, ht⟩
  | ask r next ih =>
      obtain ⟨hanswer, hnext⟩ := h t ht
      exact ih _ hnext hanswer

theorem imp {good' : α → Prop} (h : p.Keeps host I good) (hgood : ∀ a, good a → good' a) :
    p.Keeps host I good' := by
  induction p with
  | done a => exact hgood a h
  | ask r next ih =>
      intro t ht
      obtain ⟨hanswer, hnext⟩ := h t ht
      exact ⟨hanswer, ih _ hnext⟩

theorem bind {f : α → Procedure β} {good' : β → Prop} (h : p.Keeps host I good)
    (hf : ∀ a, good a → (f a).Keeps host I good') : (p >>= f).Keeps host I good' := by
  induction p with
  | done a => exact hf a h
  | ask r next ih =>
      intro t ht
      obtain ⟨hanswer, hnext⟩ := h t ht
      exact ⟨hanswer, ih _ hnext⟩

theorem request {r : Request} {good : r.Reply → Prop}
    (h : ∀ t, I t → I (r.answer host t).2 ∧ good (r.answer host t).1) :
    (Procedure.request r).Keeps host I good := h

end Keeps

/-- An attempt that keeps a property and does not fail. -/
def Achieves (host : Host) (I : FileTree → Prop) (good : α → Prop)
    (p : Procedure (Except ε α)) : Prop :=
  p.Keeps host I fun result => ∃ a, result = .ok a ∧ good a

theorem Achieves.imp {good good' : α → Prop} {p : Procedure (Except ε α)}
    (h : p.Achieves host I good) (hgood : ∀ a, good a → good' a) : p.Achieves host I good' :=
  Keeps.imp h fun _ ⟨a, hresult, ha⟩ => ⟨a, hresult, hgood a ha⟩

/-- **Jobs that are done together** keep what each of them keeps, and none of them fails. -/
theorem Joins.achieves {jobs : List (Procedure (Except ε α))} {p : Procedure (Except ε (List α))}
    {good : α → Prop} (h : Joins jobs p) (hjobs : ∀ job ∈ jobs, job.Achieves host I good) :
    p.Achieves host I fun results => results.length = jobs.length ∧ ∀ a ∈ results, good a := by
  induction h with
  | finished results =>
      refine ⟨results, rfl, (List.length_map _).symm, fun a ha => ?_⟩
      obtain ⟨b, hb, hgood⟩ := hjobs (done (.ok a)) (List.mem_map_of_mem ha)
      cases hb
      exact hgood
  | failed hfailed =>
      obtain ⟨a, ha, -⟩ := hjobs _ hfailed
      cases ha
  | answer before after r next rest _ ih =>
      obtain ⟨hbefore, hask, hafter⟩ : (∀ job ∈ before, job.Achieves host I good) ∧
          (ask r next).Achieves host I good ∧ ∀ job ∈ after, job.Achieves host I good := by
        simpa [or_imp, forall_and] using hjobs
      intro t ht
      obtain ⟨hanswer, hnext⟩ := hask t ht
      have hjobs' : ∀ job ∈ before ++ next (r.answer host t).1 :: after,
          job.Achieves host I good := by
        intro job hjob
        rcases List.mem_append.1 hjob with hjob | hjob
        · exact hbefore job hjob
        · rcases List.mem_cons.1 hjob with rfl | hjob
          · exact hnext
          · exact hafter job hjob
      have hrest := ih _ hjobs'
      rw [List.length_append, List.length_cons] at hrest ⊢
      exact ⟨hanswer, hrest⟩

end Procedure

/-! ### Attempts -/

namespace Attempt

variable {good : α → Prop} {good' : β → Prop}

theorem achieves_pure {x : α} (h : good x) :
    Procedure.Achieves host I good (pure x : Attempt ε α).run := ⟨x, rfl, h⟩

/-- **One attempt after another**, the second for everything good that the first comes to. -/
theorem achieves_bind {a : Attempt ε α} {f : α → Attempt ε β} (h : a.run.Achieves host I good)
    (hf : ∀ x, good x → (f x).run.Achieves host I good') :
    (a >>= f).run.Achieves host I good' := by
  rw [ExceptT.run_bind]
  refine h.bind fun result hresult => ?_
  obtain ⟨x, rfl, hx⟩ := hresult
  exact hf x hx

theorem achieves_explained {p : Procedure (Except SystemError α)} (h : p.Achieves host I good)
    (explain : SystemError → ε) : (explained p explain).run.Achieves host I good := by
  unfold explained
  rw [ExceptT.run_mk, map_eq_pure_bind]
  refine h.bind fun result hresult => ?_
  obtain ⟨x, rfl, hx⟩ := hresult
  exact ⟨x, rfl, hx⟩

end Attempt

end DualModule
