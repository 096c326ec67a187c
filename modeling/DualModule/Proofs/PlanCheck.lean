import DualModule.Proofs.Attempt
import DualModule.RenamePass
import Mathlib.Order.Bounds.Basic
/-!
# The check of a plan

A plan passes the check if no path is wanted twice and nothing is found at any new path
(`RenamePlan.Accepted`).  Otherwise the check fails with the *first* conflict of the plan
(`RenamePlan.check_finds_first_conflict`), and it leaves the tree alone either way.

**Which conflict is the first.**  Two kinds of conflict are looked for in one pass over the plan: a
mapping may want the path of an earlier one, and something may be at its path.  What counts is the
place in the plan and not the kind; for a mapping in conflict on both grounds it is the other mapping
that is reported, and the tree is not asked.

**One pass is enough.**  When the check comes to a mapping, the mappings before it have passed
(`checkFrom_outcome`).  They want different paths, so that at most one of them wants the path of this
one, and it does not matter in which order they are remembered.

## Main Definitions

* `RenamePlan.Accepted`
* `Mapping.Obstructed`, `Mapping.Conflict`: what is wrong with a mapping, and how it is reported
* `RenamePlan.ConflictAt`
-/

namespace DualModule

open Attempt

variable {t : FileTree} {host : Host} {m : Mapping} {earlier front plan : List Mapping}

/-! ### What can be wrong -/

/-- It is not so that nothing is found at the new path. -/
inductive Mapping.Obstructed (host : Host) (t : FileTree) (m : Mapping) : PassError → Prop
  /-- something is there -/
  | taken (found : t.exists? host.here m.new = .ok true) :
      m.Obstructed host t (.collision m.old m.new)
  /-- it cannot be told -/
  | unknown {cause : SystemError} (refused : t.exists? host.here m.new = .error cause) :
      m.Obstructed host t (.rename m.old m.new cause)

/-- What is wrong with a mapping that comes after others. -/
inductive Mapping.Conflict (host : Host) (t : FileTree) (earlier : List Mapping) (m : Mapping) :
    PassError → Prop
  /-- one of them, and only that one, wants the same path -/
  | claimed {j : Nat} {c : Mapping} (found : earlier[j]? = some c) (same : c.new.Same m.new)
      (only : ∀ k d, earlier[k]? = some d → d.new.Same m.new → k = j) :
      m.Conflict host t earlier (.duplicateTarget c.old m.old m.new)
  /-- none of them does, and the path is not free -/
  | obstructed {e : PassError} (unclaimed : ∀ c ∈ earlier, ¬ c.new.Same m.new)
      (obstructed : m.Obstructed host t e) : m.Conflict host t earlier e

theorem Mapping.Obstructed.not_free {e : PassError} (h : m.Obstructed host t e) :
    t.exists? host.here m.new ≠ .ok false := by
  cases h with
  | taken found => simp [found]
  | unknown refused => simp [refused]

namespace RenamePlan

/-- A plan passes the check: no new path is wanted twice, and at none is anything found. -/
structure Accepted (host : Host) (t : FileTree) (plan : List Mapping) : Prop where
  distinct : plan.Pairwise fun a b => ¬ a.new.Same b.new
  free : ∀ m ∈ plan, t.exists? host.here m.new = .ok false

/-- The mapping at place `i` of a plan wants the path of an earlier one, or its path is not known to
be free. -/
def ConflictAt (host : Host) (t : FileTree) (plan : List Mapping) (i : Nat) : Prop :=
  ∃ m ∈ plan[i]?, (∃ c ∈ plan.take i, c.new.Same m.new) ∨ t.exists? host.here m.new ≠ .ok false

instance (host : Host) (t : FileTree) (plan : List Mapping) (i : Nat) :
    Decidable (ConflictAt host t plan i) :=
  inferInstanceAs (Decidable (∃ m ∈ plan[i]?, _))

theorem Accepted.nil (host : Host) (t : FileTree) : Accepted host t [] :=
  ⟨List.Pairwise.nil, by simp⟩

theorem Accepted.concat_iff :
    Accepted host t (front ++ [m]) ↔
      Accepted host t front ∧ (∀ c ∈ front, ¬ c.new.Same m.new) ∧
        t.exists? host.here m.new = .ok false := by
  constructor
  · rintro ⟨hdistinct, hfree⟩
    obtain ⟨hfront, -, hcross⟩ := List.pairwise_append.1 hdistinct
    refine ⟨⟨hfront, fun c hc => hfree c (List.mem_append_left _ hc)⟩, ?_, hfree m (by simp)⟩
    exact fun c hc => hcross c hc m List.mem_cons_self
  · rintro ⟨⟨hdistinct, hfree⟩, hunclaimed, hm⟩
    refine ⟨List.pairwise_append.2 ⟨hdistinct, List.pairwise_singleton _ _, ?_⟩, ?_⟩
    · simpa using hunclaimed
    · simpa [or_imp, forall_and] using ⟨hfree, hm⟩

/-- A plan in which a place is in conflict is not accepted. -/
theorem Accepted.not_conflictAt (h : Accepted host t plan) (i : Nat) :
    ¬ ConflictAt host t plan i := by
  rintro ⟨m, hm, ⟨c, hc, hsame⟩ | htest⟩
  · obtain ⟨hi, rfl⟩ := List.getElem?_eq_some_iff.1 hm
    have hdistinct := h.distinct
    rw [← List.take_append_drop i plan, ← List.getElem_cons_drop hi, List.pairwise_append]
      at hdistinct
    exact hdistinct.2.2 c hc _ List.mem_cons_self hsame
  · exact htest (h.free m (List.mem_of_getElem? hm))

/-- A conflict with the mappings before it puts a mapping in conflict at its place. -/
theorem conflictAt_of_conflict {e : PassError} (h : m.Conflict host t front e)
    (later : List Mapping) : ConflictAt host t (front ++ m :: later) front.length := by
  refine ⟨m, by simp, ?_⟩
  rw [List.take_left]
  cases h with
  | claimed found same only => exact Or.inl ⟨_, List.mem_of_getElem? found, same⟩
  | obstructed unclaimed obstructed => exact Or.inr obstructed.not_free

end RenamePlan

/-! ### Running the check -/

/-- **The test of one new path** passes exactly if nothing is found there. -/
theorem Mapping.requireFree_outcome (host : Host) (t : FileTree) (m : Mapping) :
    (t.exists? host.here m.new = .ok false ∧ m.requireFree.outcome host t = (.ok (), t)) ∨
      ∃ e, m.Obstructed host t e ∧ m.requireFree.outcome host t = (.error e, t) := by
  have htest : (Procedure.request (.test m.new)).run host t =
      (t.exists? host.here m.new, t) := rfl
  rw [requireFree]
  cases hexists : t.exists? host.here m.new with
  | error cause =>
      rw [hexists] at htest
      exact Or.inr ⟨_, .unknown hexists, outcome_bind_error (outcome_explained htest _) _⟩
  | ok found =>
      rw [hexists] at htest
      rw [outcome_bind_ok (outcome_explained htest _)]
      cases found with
      | true => exact Or.inr ⟨_, .taken hexists, rfl⟩
      | false => exact Or.inl ⟨rfl, rfl⟩

namespace RenamePlan

/-- In an accepted plan at most one mapping wants a path. -/
theorem Accepted.conflict_of_mem (h : Accepted host t earlier) {c : Mapping} (hc : c ∈ earlier)
    (hsame : c.new.Same m.new) :
    m.Conflict host t earlier (.duplicateTarget c.old m.old m.new) := by
  obtain ⟨j, hj⟩ := List.mem_iff_getElem?.1 hc
  refine .claimed hj hsame fun k d hk hd => ?_
  obtain ⟨hjlt, rfl⟩ := List.getElem?_eq_some_iff.1 hj
  obtain ⟨hklt, rfl⟩ := List.getElem?_eq_some_iff.1 hk
  have hpairs := List.pairwise_iff_getElem.1 h.distinct
  rcases Nat.lt_trichotomy k j with hlt | heq | hlt
  · exact absurd (hd.trans hsame.symm) (hpairs k j hklt hjlt hlt)
  · exact heq
  · exact absurd (hsame.trans hd.symm) (hpairs j k hjlt hklt hlt)

/-- **One step of the check**, when the mappings before have passed: the mapping passes as well, or
the check fails with what is wrong with it. -/
theorem checkFrom_cons_outcome (h : Accepted host t front) (m : Mapping) (ms : List Mapping) :
    (Accepted host t (front ++ [m]) ∧
      (checkFrom front.reverse (m :: ms)).outcome host t =
        (checkFrom (front ++ [m]).reverse ms).outcome host t) ∨
      ∃ e, m.Conflict host t front e ∧
        (checkFrom front.reverse (m :: ms)).outcome host t = (.error e, t) := by
  rw [checkFrom]
  cases hfind : front.reverse.find? fun c => c.new.Same m.new with
  | some first =>
      have hsame : first.new.Same m.new := by simpa using List.find?_some hfind
      have hmem : first ∈ front := by simpa using List.mem_of_find?_eq_some hfind
      -- refused without asking anything about the tree
      exact Or.inr ⟨_, h.conflict_of_mem hmem hsame, rfl⟩
  | none =>
      have hunclaimed : ∀ c ∈ front, ¬ c.new.Same m.new := by
        simpa using List.find?_eq_none.1 hfind
      obtain ⟨hfree, hrun⟩ | ⟨e, hobstructed, hrun⟩ := m.requireFree_outcome host t
      · refine Or.inl ⟨Accepted.concat_iff.2 ⟨h, hunclaimed, hfree⟩, ?_⟩
        rw [List.reverse_concat]
        exact outcome_bind_ok hrun _
      · exact Or.inr ⟨e, .obstructed hunclaimed hobstructed, outcome_bind_error hrun _⟩

/-- **A run of the check** passes up to the end, or up to the first mapping with which something is
wrong.  The invariant is that what has been checked is accepted. -/
theorem checkFrom_outcome (h : Accepted host t front) (ms : List Mapping) :
    (Accepted host t (front ++ ms) ∧
      (checkFrom front.reverse ms).outcome host t = (.ok (), t)) ∨
      ∃ before m later e, ms = before ++ m :: later ∧ Accepted host t (front ++ before) ∧
        m.Conflict host t (front ++ before) e ∧
        (checkFrom front.reverse ms).outcome host t = (.error e, t) := by
  induction ms generalizing front with
  | nil => exact Or.inl ⟨by simpa using h, rfl⟩
  | cons m ms ih =>
      obtain ⟨hnext, hrun⟩ | ⟨e, hconflict, hrun⟩ := checkFrom_cons_outcome h m ms
      · rw [hrun]
        obtain ⟨haccepted, hok⟩ | ⟨before, m', later, e, rfl, hbefore, hconflict, herror⟩ :=
          ih hnext
        · exact Or.inl ⟨by simpa using haccepted, hok⟩
        · refine Or.inr ⟨m :: before, m', later, e, rfl, ?_, ?_, herror⟩
          · simpa using hbefore
          · simpa using hconflict
      · exact Or.inr ⟨[], m, ms, e, rfl, by simpa using h, by simpa using hconflict, hrun⟩

/-- **The check passes, or it fails with the first conflict.** -/
theorem check_outcome_cases (host : Host) (t : FileTree) (plan : List Mapping) :
    (Accepted host t plan ∧ (check plan).outcome host t = (.ok (), t)) ∨
      ∃ front m later e, plan = front ++ m :: later ∧ Accepted host t front ∧
        m.Conflict host t front e ∧ (check plan).outcome host t = (.error e, t) :=
  checkFrom_outcome (.nil host t) plan

/-- **The check** leaves the tree alone and passes exactly the plans that are acceptable. -/
theorem check_outcome (host : Host) (t : FileTree) (plan : List Mapping) :
    ∃ result, (check plan).outcome host t = (result, t) ∧
      (result = .ok () ↔ Accepted host t plan) := by
  obtain ⟨haccepted, hrun⟩ | ⟨front, m, later, e, rfl, -, hconflict, hrun⟩ :=
    check_outcome_cases host t plan
  · exact ⟨_, hrun, by simpa using haccepted⟩
  · refine ⟨_, hrun, ?_⟩
    simp only [reduceCtorEq, false_iff]
    exact fun haccepted => haccepted.not_conflictAt _ (conflictAt_of_conflict hconflict later)

/-- **The check finds the first conflict of a plan**, and leaves the tree alone.  It passes exactly
if the new paths are different and nothing is found at any of them.  Otherwise there is a first
mapping that wants the path of an earlier one or whose path is not known to be free, and that is the
one that is reported: with the only earlier mapping that wants its path, if there is one, and else
with what the test of its path has said. -/
theorem check_finds_first_conflict (host : Host) (t : FileTree) (plan : List Mapping) :
    ∃ result, (check plan).outcome host t = (result, t) ∧
      (result = .ok () ↔ (plan.Pairwise fun a b => ¬ a.new.Same b.new) ∧
        ∀ m ∈ plan, t.exists? host.here m.new = .ok false) ∧
      (result = .ok () ∨ ∃ i m e, IsLeast {i | ConflictAt host t plan i} i ∧ plan[i]? = some m ∧
        m.Conflict host t (plan.take i) e ∧ result = .error e) := by
  obtain ⟨result, hrun, hresult⟩ := check_outcome host t plan
  refine ⟨result, hrun, hresult.trans ⟨fun h => ⟨h.distinct, h.free⟩, fun h => ⟨h.1, h.2⟩⟩, ?_⟩
  obtain ⟨-, hok⟩ | ⟨front, m, later, e, rfl, hfront, hconflict, herror⟩ :=
    check_outcome_cases host t plan
  · exact Or.inl (congrArg Prod.fst (hrun.symm.trans hok))
  · have hleast : IsLeast {i | ConflictAt host t (front ++ m :: later) i} front.length := by
      refine ⟨conflictAt_of_conflict hconflict later, ?_⟩
      rintro i ⟨m', hm', hwrong⟩
      -- at the places before, nothing is wrong
      refine Nat.le_of_not_lt fun hlt => hfront.not_conflictAt i ⟨m', ?_, ?_⟩
      · rwa [List.getElem?_append_left (by omega)] at hm'
      · rwa [List.take_append_of_le_length (by omega)] at hwrong
    refine Or.inr ⟨front.length, m, e, hleast, by simp, ?_, ?_⟩
    · rwa [List.take_left]
    · exact congrArg Prod.fst (hrun.symm.trans herror)

/-- Two files that want one path, and a third whose new path is taken: the first conflict is that of
the second file with the first one. -/
theorem duplicate_found_before_taken_path :
    let rules : List RenameRule :=
      [⟨".x".toList, ".z".toList, [], [], [], []⟩, ⟨".y".toList, ".z".toList, [], [], [], []⟩]
    let t : FileTree := .ofEntries [("/t/a.x", .file [] false), ("/t/a.y", .file [] false),
      ("/t/b.x", .file [] false), ("/t/b.z", .file [] false)]
    let plan := RenamePlan.of [.ofText "/t/b.x".toList, .ofText "/t/a.y".toList,
      .ofText "/t/a.x".toList, .ofText "/t/b.z".toList] rules
    ¬ ConflictAt .plain t plan 0 ∧ ConflictAt .plain t plan 1 ∧ ConflictAt .plain t plan 2 ∧
      (check plan).outcome .plain t = (.error (.duplicateTarget (.ofText "/t/a.x".toList)
        (.ofText "/t/a.y".toList) (.ofText "/t/a.z".toList)), t) := by
  intro rules t plan
  obtain ⟨result, hrun, -⟩ := check_finds_first_conflict .plain t plan
  refine ⟨by decide +kernel, by decide +kernel, by decide +kernel, Prod.ext ?_ ?_⟩
  · decide +kernel
  · rw [hrun]

end RenamePlan

end DualModule
