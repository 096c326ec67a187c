import DualModule.Procedure.Contention
import DualModule.Proofs.Operations
import Mathlib.Tactic.Choose
/-!
# Proof outlines under contention

What a procedure knows about the tree may be outdated as soon as it knows it.  What can be relied on
are statements that no other party makes false: an `Assertion` is such a statement.  A proof outline
(`Procedure.Outline`) gives a procedure an assertion before each of its requests and at its end, so
that each answer leads from one to the next; what other parties do in between leads nowhere else.

**Invariants.**  All assertions of an outline imply one statement `I`, which therefore holds in
every state (`Outline.after`).  `I` is what is to be proved of all states; the assertions say why.

The rules follow the ways in which procedures are put together.  Of an attempt only the results are
described: after a failure nothing is known but `I`, and nothing more is asked for.

## Main Definitions

* `Lasting`, `Assertion`
* `Request.Answers`
* `Procedure.Outline`, `Attempt.Outline`
-/

namespace DualModule

/-- A statement about what has happened and about the tree that lasts: other parties cannot make it
false. -/
structure Lasting where
  Holds : List Event → FileTree → Prop
  stable : ∀ {past t u n d node}, Holds past t → t.get? (n :: d) = none →
    t.Updated (n :: d) (some node) u → Holds (.created (n :: d) node :: past) u

/-- A lasting statement that implies the invariant. -/
structure Assertion (I : Lasting) extends Lasting where
  safe : ∀ {past t}, Holds past t → I.Holds past t

namespace Assertion

variable {I : Lasting} {ι : Type}

/-- The invariant and nothing else. -/
def weakest (I : Lasting) : Assertion I := ⟨I, id⟩

/-- One of several assertions holds. -/
def any (P : ι → Assertion I) : Assertion I where
  Holds past t := ∃ i, (P i).Holds past t
  stable := fun ⟨i, h⟩ hfree hupdated => ⟨i, (P i).stable h hfree hupdated⟩
  safe := fun ⟨i, h⟩ => (P i).safe h

/-- One assertion implies another. -/
instance : LE (Assertion I) := ⟨fun P Q => ∀ past t, P.Holds past t → Q.Holds past t⟩

theorem le_refl (P : Assertion I) : P ≤ P := fun _ _ h => h

theorem le_weakest (P : Assertion I) : P ≤ weakest I := fun _ _ => P.safe

end Assertion

/-- The host answers a request on a tree in this way, and leaves that tree: it does what was asked,
or it refuses. -/
def Request.Answers (host : Host) (t : FileTree) (r : Request) (reply : r.Reply) (u : FileTree) :
    Prop :=
  r.answer host t = (reply, u) ∨ (∃ cause, r.refusal? cause = some reply) ∧ u = t

namespace Procedure

variable {α β : Type} {host : Host} {I : Lasting}

/-- There is an assertion before each request, from `P` before the first to `Q` about the result. -/
def Outline (host : Host) (P : Assertion I) : Procedure α → (α → Assertion I) → Prop
  | done a, Q => P ≤ Q a
  | ask r next, Q =>
    ∃ R : r.Reply → Assertion I,
      (∀ {past t reply u}, P.Holds past t → r.Answers host t reply u →
        (R reply).Holds (.answered r reply :: past) u) ∧
      ∀ reply, Outline host (R reply) (next reply) Q

namespace Outline

variable {P P' : Assertion I} {p : Procedure α} {Q Q' : α → Assertion I}

/-! ### What an outline is worth -/

/-- In a state an outline holds from an assertion that is true there. -/
def At (host : Host) (s : State α) (Q : α → Assertion I) : Prop :=
  ∃ P : Assertion I, P.Holds s.past s.tree ∧ Outline host P s.rest Q

/-- **A turn leads from one assertion to the next.** -/
theorem At.take {s : State α} (h : At host s Q) (turn : Turn) : At host (s.take host turn) Q := by
  obtain ⟨p, past, t⟩ := s
  obtain ⟨P, hP, hrest⟩ := h
  cases turn with
  | answer =>
      cases p with
      | done a => exact ⟨P, hP, hrest⟩
      | ask r next =>
          obtain ⟨R, hanswers, hnext⟩ := hrest
          exact ⟨R _, hanswers hP (Or.inl rfl), hnext _⟩
  | refuse cause =>
      cases p with
      | done a => exact ⟨P, hP, hrest⟩
      | ask r next =>
          cases hreply : r.refusal? cause with
          | none =>
              simp only [State.take, hreply]
              exact ⟨P, hP, hrest⟩
          | some reply =>
              simp only [State.take, hreply]
              obtain ⟨R, hanswers, hnext⟩ := hrest
              exact ⟨R reply, hanswers hP (Or.inr ⟨⟨cause, hreply⟩, rfl⟩), hnext reply⟩
  | create n d node =>
      -- the procedure does not notice, and its assertion lasts
      by_cases hfree : t.get? (n :: d) = none
      · cases hplace : t.place n d node with
        | error cause =>
            simp only [State.take, hfree, hplace, if_true]
            exact ⟨P, hP, hrest⟩
        | ok u =>
            simp only [State.take, hfree, hplace, if_true]
            exact ⟨P, P.stable hP hfree (FileTree.updated_of_place hplace), hrest⟩
      · simp only [State.take, hfree, if_false]
        exact ⟨P, hP, hrest⟩

/-- **After any turns** the invariant holds, and if the procedure is done, what the outline says
about its result holds as well. -/
theorem after {t : FileTree} (h : Outline host P p Q) (hP : P.Holds [] t) (turns : List Turn) :
    let s := (State.start p t).after host turns
    I.Holds s.past s.tree ∧ ∀ a, s.rest = done a → (Q a).Holds s.past s.tree := by
  intro s
  have hturns : ∀ {s : State α}, At host s Q → At host (s.after host turns) Q := by
    induction turns with
    | nil => exact fun h => h
    | cons turn turns ih => exact fun h => ih (h.take turn)
  obtain ⟨P, hP, hrest⟩ : At host s Q := hturns ⟨P, hP, h⟩
  refine ⟨P.safe hP, fun a ha => ?_⟩
  rw [ha] at hrest
  exact hrest _ _ hP

/-! ### Rules -/

theorem weaken (hP : P' ≤ P) (h : Outline host P p Q) : Outline host P' p Q := by
  cases p with
  | done a => exact fun past t hp => h past t (hP past t hp)
  | ask r next =>
      obtain ⟨R, hanswers, hnext⟩ := h
      exact ⟨R, fun hp => hanswers (hP _ _ hp), hnext⟩

theorem bind {f : α → Procedure β} {Q' : β → Assertion I} (h : Outline host P p Q)
    (hf : ∀ a, Outline host (Q a) (f a) Q') : Outline host P (p >>= f) Q' := by
  induction p generalizing P with
  | done a => exact (hf a).weaken h
  | ask r next ih =>
      obtain ⟨R, hanswers, hnext⟩ := h
      exact ⟨R, hanswers, fun reply => ih reply (hnext reply)⟩

theorem map {Q' : β → Assertion I} (f : α → β) (h : Outline host P p Q)
    (hf : ∀ a, Q a ≤ Q' (f a)) : Outline host P (f <$> p) Q' := by
  rw [map_eq_pure_bind]
  exact h.bind hf

/-- What is known of a result may be given up. -/
theorem conseq (h : Outline host P p Q) (hQ : ∀ a, Q a ≤ Q' a) : Outline host P p Q' := by
  rw [← bind_pure p]
  exact h.bind hQ

/-- **Cases.**  Of several assertions, one of which holds, each has to be followed by an outline. -/
theorem any {ι : Type} {P : ι → Assertion I} (h : ∀ i, Outline host (P i) p Q) :
    Outline host (.any P) p Q := by
  induction p generalizing ι with
  | done a => exact fun past t ⟨i, hi⟩ => h i past t hi
  | ask r next ih =>
      -- each case has its own assertions about the replies, so again one of several holds
      choose R hanswers hnext using h
      exact ⟨fun reply => .any fun i => R i reply,
        fun ⟨i, hi⟩ hreply => ⟨i, hanswers i hi hreply⟩,
        fun reply => ih reply fun i => hnext i reply⟩

theorem request {r : Request} {Q : r.Reply → Assertion I}
    (h : ∀ {past t reply u}, P.Holds past t → r.Answers host t reply u →
      (Q reply).Holds (.answered r reply :: past) u) :
    Outline host P (Procedure.request r) Q :=
  ⟨Q, h, fun reply => Assertion.le_refl (Q reply)⟩

end Outline

end Procedure

namespace Attempt

variable {ε α β : Type} {host : Host} {I : Lasting}

/-- What an outline says about the outcome of an attempt: `Q` about a result, and of a failure only
that the invariant holds. -/
def onResult (Q : α → Assertion I) : Except ε α → Assertion I
  | .ok a => Q a
  | .error _ => .weakest I

/-- There is an assertion before each request of an attempt, from `P` before the first to `Q` about
the result. -/
def Outline (host : Host) (P : Assertion I) (x : Attempt ε α) (Q : α → Assertion I) : Prop :=
  Procedure.Outline host P (ExceptT.run x) (onResult Q)

namespace Outline

variable {P P' : Assertion I} {x : Attempt ε α} {Q Q' : α → Assertion I}

theorem weaken (hP : P' ≤ P) (h : Outline host P x Q) : Outline host P' x Q :=
  Procedure.Outline.weaken hP h

theorem any {ι : Type} {P : ι → Assertion I} (h : ∀ i, Outline host (P i) x Q) :
    Outline host (.any P) x Q :=
  Procedure.Outline.any h

theorem pure {a : α} (h : P ≤ Q a) : Outline host P (Pure.pure a : Attempt ε α) Q := h

theorem throw (P : Assertion I) (Q : α → Assertion I) (e : ε) :
    Outline host P (throw e : Attempt ε α) Q := P.le_weakest

theorem bind {f : α → Attempt ε β} {Q' : β → Assertion I} (h : Outline host P x Q)
    (hf : ∀ a, Outline host (Q a) (f a) Q') : Outline host P (x >>= f) Q' := by
  unfold Outline
  rw [ExceptT.run_bind]
  refine Procedure.Outline.bind h fun result => ?_
  cases result with
  | ok a => exact hf a
  | error e => exact Assertion.le_refl _

/-- What is known of a result may be given up. -/
theorem conseq (h : Outline host P x Q) (hQ : ∀ a, Q a ≤ Q' a) : Outline host P x Q' := by
  refine Procedure.Outline.conseq h fun result => ?_
  cases result with
  | ok a => exact hQ a
  | error e => exact Assertion.le_refl _

/-- A procedure whose refusal is a failure. -/
theorem explained {p : Procedure (Except SystemError α)} {explain : SystemError → ε}
    (h : Procedure.Outline host P p (onResult Q)) :
    Outline host P (Attempt.explained p explain) Q := by
  refine Procedure.Outline.map _ h fun reply => ?_
  cases reply <;> exact Assertion.le_refl _

/-- A procedure whose answer is the result, whatever it is. -/
theorem lift {p : Procedure α} (h : Procedure.Outline host P p Q) :
    Outline host P (liftM p : Attempt ε α) Q :=
  Procedure.Outline.map Except.ok h fun a => Assertion.le_refl (Q a)

end Outline

end Attempt

end DualModule
