import DualModule.Proofs.Observation
import DualModule.Proofs.RenamePass
import Mathlib.Data.List.Pairwise
/-!
# What a plan holds

A plan for files that are all different holds exactly one mapping for each file to whose name a rule
applies, made by the first such rule, and it lists them in strictly ascending order of the old paths
(`RenamePlan.of_exact`).  Files without a name, and files whose names are not UTF-8, are passed over.

**The listing order leaves no trace.**  What a plan holds does not depend on the order of the files,
and neither does the order in which it holds it, so that all listings of the same files have the same
plan.  A host is free to list directories as it likes; whatever its order, the rename pass comes to
the same result, be it the plan or the conflict that it fails with, and leaves the same tree
(`renameBelow_outcome_congr`).
-/

namespace DualModule

open Attempt

variable {rules : List RenameRule} {file : Path} {m : Mapping}

/-! ### Requests of the rename pass -/

theorem Mapping.requireFree_asks (m : Mapping) : m.requireFree.Asks (·.isSettled) := by
  refine (asks_explained (Procedure.obeys_settled rfl) _).bind fun taken => ?_
  cases taken with
  | true => exact asks_throw _
  | false => exact asks_pure _

theorem RenamePlan.checkFrom_asks (claimed ms : List Mapping) :
    (checkFrom claimed ms).Asks (·.isSettled) := by
  induction ms generalizing claimed with
  | nil => exact asks_pure _
  | cons m ms ih =>
      rw [checkFrom]
      cases claimed.find? fun c => c.new.Same m.new with
      | some first => exact asks_throw _
      | none => exact m.requireFree_asks.bind fun _ => ih _

theorem Mapping.perform_asks (m : Mapping) : m.perform.Asks (·.isSettled) := by
  refine (asks_explained (Procedure.obeys_settled rfl) _).bind fun _ => ?_
  refine (asks_lift (Procedure.obeys_settled rfl)).bind fun reply => ?_
  cases reply with
  | ok _ => exact asks_pure _
  | error cause => exact (asks_lift (Procedure.obeys_settled rfl)).bind fun _ => asks_throw _

theorem RenamePlan.forM_perform_asks (ms : List Mapping) :
    (ms.forM Mapping.perform).Asks (·.isSettled) := by
  induction ms with
  | nil => exact asks_pure _
  | cons m ms ih => exact m.perform_asks.bind fun _ => ih

/-- **The order in which directories are listed** has no influence on a rename pass. -/
theorem renameBelow_outcome_congr {t : FileTree} {host host' : Host} {root : Path} {r : Location}
    (hhere : host'.here = host.here) (hroot : t.canonical host.here root = .ok r.path)
    (hr : t.get? r = some .directory) :
    (renameBelow root rules).outcome host' t = (renameBelow root rules).outcome host t := by
  -- the walks find the same files, and from then on nothing is listed
  obtain ⟨files, hfiles, hperm⟩ := filesBelow_outcome hroot hr
  obtain ⟨files', hfiles', hperm'⟩ := filesBelow_outcome (hhere ▸ hroot) hr
  rw [renameBelow, outcome_bind_ok hfiles, outcome_bind_ok hfiles', RenamePlan.of_filesBelow hperm,
    RenamePlan.of_filesBelow hperm']
  refine Asks.outcome_congr ?_ hhere
  refine (RenamePlan.checkFrom_asks _ _).bind fun _ => ?_
  exact (RenamePlan.forM_perform_asks _).bind fun _ => asks_pure _

/-! ### Plans -/

namespace RenamePlan

variable {files files' : List Path}

/-- **What a plan holds.** -/
theorem mem_of_iff_byFirstRule :
    m ∈ RenamePlan.of files rules ↔ m.old ∈ files ∧ m.ByFirstRule rules := by
  simp [mem_of_iff, Mapping.ofFile?_eq_some_iff]

/-- A file to which a rule applies has one mapping in the plan. -/
theorem existsUnique_mem_of (hfile : file ∈ files) (h : ∃ rule ∈ rules, rule.Fits file) :
    ∃! m, m ∈ RenamePlan.of files rules ∧ m.old = file := by
  obtain ⟨m, hm⟩ := Option.isSome_iff_exists.1 (Mapping.ofFile?_isSome_iff.2 h)
  refine ⟨m, ⟨mem_of_iff.2 ⟨file, hfile, hm⟩, Mapping.old_of_ofFile? hm⟩, ?_⟩
  rintro m' ⟨hm', rfl⟩
  obtain ⟨-, hrule⟩ := mem_of_iff_byFirstRule.1 hm'
  exact Option.some.inj ((Mapping.ofFile?_eq_some_iff.2 ⟨rfl, hrule⟩).symm.trans hm)

/-- The new path of an absolute one: its last name makes room for what the rule has made of it. -/
theorem exists_new_of_mem (habsolute : ∀ f ∈ files, f.isAbsolute = true)
    (hm : m ∈ RenamePlan.of files rules) :
    ∃ d n base, m.old.components = d ++ [.name n] ∧
      n.bytes = Utf8.encode (base ++ m.rule.matchSuffix) ∧
      ((Utf8.encode (base ++ m.rule.replacementSuffix)).head? ≠ some slash →
        m.new.components =
          d ++ Component.ofBytes (Utf8.encode (base ++ m.rule.replacementSuffix))) := by
  obtain ⟨hold, hrule⟩ := mem_of_iff_byFirstRule.1 hm
  obtain ⟨d, base, hends, hnew⟩ := hrule.renamed
  obtain ⟨n, ht, hc⟩ := hends
  refine ⟨d, n, base, hc, FileName.text?_eq_some_iff.1 ht, fun hhead => ?_⟩
  have hn : m.old.fileName? = some n := Path.fileName?_eq_some_iff.2 (by simp [hc])
  rw [hnew, Path.components_withFileName_of_isAbsolute (habsolute _ hold) hn hhead, hc,
    List.dropLast_concat]

/-- **A plan is exact and does not depend on the order of the files.**  For different absolute paths
it holds a mapping for each file to whose name a rule applies, one for each, by the first such rule,
and nothing else; the last name of a new path is that of the old one with its end exchanged.  It is in
strictly ascending order of the old paths, component by component, and it is the same for every order
of the files.  So the order in which a host lists directories can be told neither from the plan of a
rename pass nor from the conflict that it ends with, nor from the tree that it leaves. -/
theorem of_exact (habsolute : ∀ f ∈ files, f.isAbsolute = true)
    (hdistinct : files.Pairwise fun p q => ¬ p.Same q) (rules : List RenameRule) :
    let plan := RenamePlan.of files rules
    (∀ m, m ∈ plan ↔ m.old ∈ files ∧ m.ByFirstRule rules) ∧
    (∀ f ∈ files, (∃ rule ∈ rules, rule.Fits f) → ∃! m, m ∈ plan ∧ m.old = f) ∧
    (∀ m ∈ plan, ∃ d n base, m.old.components = d ++ [.name n] ∧
      n.bytes = Utf8.encode (base ++ m.rule.matchSuffix) ∧
      ((Utf8.encode (base ++ m.rule.replacementSuffix)).head? ≠ some slash →
        m.new.components =
          d ++ Component.ofBytes (Utf8.encode (base ++ m.rule.replacementSuffix)))) ∧
    (plan.Pairwise fun a b => compare a.old.components b.old.components = .lt) ∧
    (∀ files', files'.Perm files → RenamePlan.of files' rules = plan) ∧
    ∀ (t : FileTree) (host host' : Host) (root : Path) (r : Location), host'.here = host.here →
      t.canonical host.here root = .ok r.path → t.get? r = some .directory →
      (renameBelow root rules).outcome host' t = (renameBelow root rules).outcome host t := by
  intro plan
  have hsame : ∀ p ∈ files, ∀ q ∈ files, p.Same q → p = q := by
    have : Std.Symm fun p q : Path => p.Same q → p = q := ⟨fun _ _ h hqp => (h hqp.symm).symm⟩
    exact (hdistinct.imp fun hne heq => absurd heq hne).forall_of_forall fun _ _ _ => rfl
  refine ⟨fun _ => mem_of_iff_byFirstRule, fun _ => existsUnique_mem_of, fun _ =>
    exists_new_of_mem habsolute, of_pairwise_lt hdistinct rules, fun _ hperm => ?_,
    fun _ _ _ _ _ => renameBelow_outcome_congr⟩
  exact (of_perm hperm.symm hsame).symm

/-- Rules that both fit a name, a directory whose files come before a name that begins with its own
and a dot, and two paths that are passed over, in any order; and two hosts that list the other way
round. -/
theorem of_exact_for_overlapping_rules :
    let rules : List RenameRule :=
      [⟨".js".toList, ".mjs".toList, [], [], [], []⟩, ⟨"s".toList, "z".toList, [], [], [], []⟩]
    let files : List Path := [.ofText "/o/..".toList, .ofText "/o/ts".toList,
      .ofText "/o/a.b.js".toList, ⟨Utf8.encode "/o/".toList ++ [0xFF, 0x73]⟩,
      .ofText "/o/a/x.js".toList]
    let plan := RenamePlan.of files rules
    let t : FileTree := .ofEntries [("/o/a.js", .file [] false), ("/o/b.js", .file [] false)]
    let backwards : Host := { Host.plain with
      arrange := fun _ entries => entries.reverse
      arrange_perm := fun _ entries => entries.reverse_perm }
    (∀ f ∈ files, f.isAbsolute = true) ∧ (files.Pairwise fun p q => ¬ p.Same q) ∧
      plan = [⟨.ofText "/o/a/x.js".toList, .ofText "/o/a/x.mjs".toList, rules[0]⟩,
        ⟨.ofText "/o/a.b.js".toList, .ofText "/o/a.b.mjs".toList, rules[0]⟩,
        ⟨.ofText "/o/ts".toList, .ofText "/o/tz".toList, rules[1]⟩] ∧
      (∃! m, m ∈ plan ∧ m.old = .ofText "/o/a.b.js".toList) ∧
      (plan.Pairwise fun a b => compare a.old.components b.old.components = .lt) ∧
      RenamePlan.of files.reverse rules = plan ∧
      (renameBelow (.ofText "/o".toList) rules).outcome backwards t =
        (renameBelow (.ofText "/o".toList) rules).outcome .plain t := by
  intro rules files plan t backwards
  have habsolute : ∀ f ∈ files, f.isAbsolute = true := by decide
  have hdistinct : files.Pairwise fun p q => ¬ p.Same q := by decide +kernel
  obtain ⟨-, hone, -, horder, hperm, hlisting⟩ := of_exact habsolute hdistinct rules
  have hfits : ∃ rule ∈ rules, rule.Fits (.ofText "/o/a.b.js".toList) :=
    ⟨rules[0], by simp, [.root, .name ⟨Utf8.encode "o".toList, by decide⟩], "a.b".toList,
      ⟨Utf8.encode "a.b.js".toList, by decide⟩, by decide +kernel, by decide +kernel⟩
  exact ⟨habsolute, hdistinct, by decide +kernel, hone _ (by decide +kernel) hfits, horder,
    hperm _ (List.reverse_perm _),
    hlisting t .plain backwards _ [⟨Utf8.encode "o".toList, by decide⟩] rfl (by decide +kernel)
      (by decide +kernel)⟩

end RenamePlan

end DualModule
