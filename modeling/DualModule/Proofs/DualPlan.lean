import DualModule.Proofs.Normalisation
import DualModule.Proofs.PlanOrder
/-!
# Dual-module plans do not clash

A plan by the dual-module rules for files that are all different wants no path twice, wants no path
that it takes a file away from, and leaves nothing to be planned (`RenamePlan.dualModule_coherent`).

**The end of a name tells what it is.**  The third character from the end is a `c` in every new name
and a dot in every old one, so that no rule applies to a new name and no new path is an old one.  The
second one from the end differs in the two families, so that a new name gives away the rule that has
made it, and with the rule the old name.  Nothing is asked of what stands before: that may be empty,
or end as an old name does.

**A module and its declarations** are the only files that share a stem.  All that their names have
in common goes into it, and the rest is one of the two extensions.
-/

namespace DualModule

/-! ### Names -/

/-- The end of a text is not changed by what is put before it. -/
theorem getElem?_reverse_append (base : Text) {suffix : Text} {k : Nat} (h : k < suffix.length) :
    (base ++ suffix).reverse[k]? = suffix.reverse[k]? := by
  rw [List.reverse_append, List.getElem?_append_left (by simpa using h)]

namespace RenameRule

variable {rule rule' : RenameRule} {base base' : Text}

/-- **No new name is an old name.** -/
theorem replacement_ne_match (h : rule ∈ dualModule) (h' : rule' ∈ dualModule)
    (base base' : Text) : base ++ rule.replacementSuffix ≠ base' ++ rule'.matchSuffix := by
  intro heq
  have hnew : (base ++ rule.replacementSuffix).reverse[2]? = some 'c' := by
    rcases mem_dualModule.1 h with rfl | rfl <;> exact getElem?_reverse_append base (by decide)
  have hold : (base' ++ rule'.matchSuffix).reverse[2]? = some '.' := by
    rcases mem_dualModule.1 h' with rfl | rfl <;> exact getElem?_reverse_append base' (by decide)
  rw [heq, hold] at hnew
  exact absurd hnew (by decide)

/-- The second character from the end of a new name is that of the extension of its rule. -/
theorem getElem?_replacement (h : rule ∈ dualModule) (base : Text) :
    (base ++ rule.replacementSuffix).reverse[1]? = some (if rule = implementation then 'j' else 't')
    := by
  rcases mem_dualModule.1 h with rfl | rfl <;> exact getElem?_reverse_append base (by decide)

/-- **A new name gives away its rule** and what it has in common with the old name. -/
theorem replacement_inj (h : rule ∈ dualModule) (h' : rule' ∈ dualModule)
    (heq : base ++ rule.replacementSuffix = base' ++ rule'.replacementSuffix) :
    rule = rule' ∧ base = base' := by
  have hrule : rule = rule' := by
    have hend := getElem?_replacement h base
    rw [heq, getElem?_replacement h' base'] at hend
    rcases mem_dualModule.1 h with rfl | rfl <;> rcases mem_dualModule.1 h' with rfl | rfl
    · rfl
    · exact absurd hend (by decide)
    · exact absurd hend (by decide)
    · rfl
  subst hrule
  exact ⟨rfl, List.append_cancel_right heq⟩

end RenameRule

/-! ### Mappings -/

namespace Mapping.Dual

variable {m m' : Mapping} {d d' : List Component} {base base' : Text}

/-- **No dual-module rule applies to a new path.** -/
theorem not_fits_new (h : m.Dual d base) {rule : RenameRule}
    (hrule : rule ∈ RenameRule.dualModule) : ¬ rule.Fits m.new := by
  rintro ⟨d', base', hends⟩
  exact RenameRule.replacement_ne_match h.rule hrule base base' (h.new.text_unique hends)

/-- **The new file is not renamed again.** -/
theorem ofFile?_new (h : m.Dual d base) : ofFile? RenameRule.dualModule m.new = none :=
  ofFile?_eq_none_iff.2 fun _ => h.not_fits_new

/-- A new path is not an old one. -/
theorem new_not_same_old (h : m.Dual d base) (h' : m'.Dual d' base') : ¬ m.new.Same m'.old :=
  fun hsame => h.not_fits_new h'.rule ⟨d', base', h'.old.of_same hsame.symm⟩

/-- **Files that go to one path are one file.** -/
theorem same_old_of_same_new (h : m.Dual d base) (h' : m'.Dual d' base')
    (hsame : m.new.Same m'.new) : m.old.Same m'.old := by
  have hnew := h.new.of_same hsame
  obtain ⟨hrule, rfl⟩ := RenameRule.replacement_inj h.rule h'.rule (hnew.text_unique h'.new)
  obtain rfl : d = d' := hnew.dropLast.symm.trans h'.new.dropLast
  have hold := h'.old
  rw [← hrule] at hold
  exact h.old.components_eq hold

/-- The stem is in the directory of the file. -/
theorem oldStem_components (h : m.Dual d base) :
    ∃ n : FileName, m.oldStem.components = m.old.components.dropLast ++ [.name n] := by
  obtain ⟨n, -, hn⟩ := h.oldStem
  exact ⟨n, by rw [hn, h.old.dropLast]⟩

/-- The old name is the stem with the extension of the family. -/
theorem old_endsIn (h : m.Dual d base) :
    m.old.EndsIn d (base ++ "_pb".toList ++ m.rule.oldExtension) := by
  have hold := h.old
  rwa [RenameRule.matchSuffix_of_mem h.rule, ← List.append_assoc] at hold

/-- **Two files share their stem** if and only if their names differ in the extension only. -/
theorem oldStem_same_iff (h : m.Dual d base) (h' : m'.Dual d' base') :
    m.oldStem.Same m'.oldStem ↔ ∃ d text, m.old.EndsIn d (text ++ m.rule.oldExtension) ∧
      m'.old.EndsIn d (text ++ m'.rule.oldExtension) := by
  constructor
  · intro hsame
    have hstem := h.oldStem.of_same hsame
    obtain rfl : d = d' := hstem.dropLast.symm.trans h'.oldStem.dropLast
    have htext : base ++ "_pb".toList = base' ++ "_pb".toList := hstem.text_unique h'.oldStem
    exact ⟨d, base ++ "_pb".toList, h.old_endsIn, htext ▸ h'.old_endsIn⟩
  · rintro ⟨e, text, hold, hold'⟩
    -- the extension comes off the same way
    have hbase : base ++ "_pb".toList = text :=
      List.append_cancel_right (h.old_endsIn.text_unique hold)
    have hbase' : base' ++ "_pb".toList = text :=
      List.append_cancel_right (h'.old_endsIn.text_unique hold')
    obtain rfl : d = e := h.old.dropLast.symm.trans hold.dropLast
    obtain rfl : d' = d := h'.old.dropLast.symm.trans hold'.dropLast
    have hstem := h.oldStem
    rw [hbase, ← hbase'] at hstem
    exact hstem.components_eq h'.oldStem

end Mapping.Dual

/-! ### Plans -/

namespace RenamePlan

variable {files : List Path} {plan : List Mapping}

/-- **The new paths are different.** -/
theorem dualModule_pairwise_new (h : files.Pairwise fun p q => ¬ p.Same q) :
    (RenamePlan.of files RenameRule.dualModule).Pairwise fun a b => ¬ a.new.Same b.new := by
  have hold := of_pairwise_old (fun hpq hqp => hpq hqp.symm) h RenameRule.dualModule
  refine hold.imp_of_mem fun {a b} ha hb hne hsame => hne ?_
  obtain ⟨d, base, hdual⟩ := Mapping.exists_dual_of_mem ha
  obtain ⟨d', base', hdual'⟩ := Mapping.exists_dual_of_mem hb
  exact hdual.same_old_of_same_new hdual' hsame

/-- **Different new paths are not reported as duplicates**, whatever is in the tree. -/
theorem check_ne_duplicateTarget (h : plan.Pairwise fun a b => ¬ a.new.Same b.new) (host : Host)
    (t : FileTree) (first second target : Path) :
    ((check plan).outcome host t).1 ≠ .error (.duplicateTarget first second target) := by
  obtain ⟨-, hrun⟩ | ⟨front, m, later, e, rfl, -, hconflict, hrun⟩ :=
    check_outcome_cases host t plan
  · simp [hrun]
  · rw [hrun]
    rintro heq
    obtain rfl := Except.error.inj heq
    cases hconflict with
    | claimed found same only =>
        obtain ⟨-, -, hcross⟩ := List.pairwise_append.1 h
        exact hcross _ (List.mem_of_getElem? found) m List.mem_cons_self same
    | obstructed unclaimed obstructed => cases obstructed

/-- **Nothing is planned the second time.** -/
theorem of_map_newPath (files : List Path) :
    RenamePlan.of (files.map (newPath (RenamePlan.of files RenameRule.dualModule)))
      RenameRule.dualModule = [] := by
  refine List.eq_nil_iff_forall_not_mem.2 fun m' hm' => ?_
  obtain ⟨f', hf', hofFile⟩ := mem_of_iff.1 hm'
  obtain ⟨f, hf, rfl⟩ := List.mem_map.1 hf'
  obtain ⟨m, hm, -, hnew⟩ | ⟨hne, hstays⟩ :=
    newPath_cases (RenamePlan.of files RenameRule.dualModule) f
  · obtain ⟨d, base, hdual⟩ := Mapping.exists_dual_of_mem hm
    rw [hnew, hdual.ofFile?_new] at hofFile
    cases hofFile
  · -- a file that stays is one that no rule applies to
    rw [hstays] at hofFile
    exact hne m' (mem_of_iff.2 ⟨f, hf, hofFile⟩) (Mapping.old_of_ofFile? hofFile)

/-- **A dual-module plan does not clash with itself.**  For files that are all different: the new
paths are different, none of them is an old path, and no rule applies to any of them.  Both stems of
a mapping are one path in the directory of the file, and a module shares it with a file of
declarations exactly if the two names differ in `.js` and `.d.ts` only.  So the check of a plan
never finds two files that want one path, and a plan for the files as they are after the renames is
empty. -/
theorem dualModule_coherent (hdistinct : files.Pairwise fun p q => ¬ p.Same q) :
    let plan := RenamePlan.of files RenameRule.dualModule
    (plan.Pairwise fun a b => ¬ a.new.Same b.new) ∧
    (∀ m ∈ plan, ∀ m' ∈ plan, ¬ m.new.Same m'.old) ∧
    (∀ m ∈ plan, ∀ rule ∈ RenameRule.dualModule, ¬ rule.Fits m.new) ∧
    (∀ m ∈ plan, m.oldStem.Same m.newStem ∧
      ∃ n : FileName, m.oldStem.components = m.old.components.dropLast ++ [.name n]) ∧
    (∀ m ∈ plan, ∀ m' ∈ plan, m.rule = .implementation → m'.rule = .declaration →
      (m.oldStem.Same m'.oldStem ↔ ∃ d text,
        m.old.EndsIn d (text ++ ".js".toList) ∧ m'.old.EndsIn d (text ++ ".d.ts".toList))) ∧
    (∀ (host : Host) (t : FileTree) (first second target : Path),
      ((check plan).outcome host t).1 ≠ .error (.duplicateTarget first second target)) ∧
    RenamePlan.of (files.map (newPath plan)) RenameRule.dualModule = [] := by
  intro plan
  have hnew : plan.Pairwise fun a b => ¬ a.new.Same b.new := dualModule_pairwise_new hdistinct
  refine ⟨hnew, ?_, ?_, ?_, ?_, check_ne_duplicateTarget hnew, of_map_newPath files⟩
  · intro m hm m' hm'
    obtain ⟨d, base, hdual⟩ := Mapping.exists_dual_of_mem hm
    obtain ⟨d', base', hdual'⟩ := Mapping.exists_dual_of_mem hm'
    exact hdual.new_not_same_old hdual'
  · intro m hm rule hrule
    obtain ⟨d, base, hdual⟩ := Mapping.exists_dual_of_mem hm
    exact hdual.not_fits_new hrule
  · intro m hm
    obtain ⟨d, base, hdual⟩ := Mapping.exists_dual_of_mem hm
    exact ⟨hdual.newStem_components.symm, hdual.oldStem_components⟩
  · intro m hm m' hm' hrule hrule'
    obtain ⟨d, base, hdual⟩ := Mapping.exists_dual_of_mem hm
    obtain ⟨d', base', hdual'⟩ := Mapping.exists_dual_of_mem hm'
    have hiff := hdual.oldStem_same_iff hdual'
    rwa [hrule, hrule'] at hiff

/-- Bases that are empty or end as an old name does, a module with its declarations, and a file that
has the new name of another one. -/
theorem dualModule_coherent_for_nested_suffixes :
    let files : List Path := [.ofText "/g/_pb.js".toList, .ofText "/g/_pb.d.ts".toList,
      .ofText "/g/a_pb.js_pb.js".toList, .ofText "/g/a.d_pb.d.ts".toList,
      .ofText "/g/a_pb.js".toList, .ofText "/g/a_pb.cjs".toList]
    let plan := RenamePlan.of files RenameRule.dualModule
    (files.Pairwise fun p q => ¬ p.Same q) ∧
      plan.map Mapping.new = [.ofText "/g/_pb.d.cts".toList, .ofText "/g/_pb.cjs".toList,
        .ofText "/g/a.d_pb.d.cts".toList, .ofText "/g/a_pb.cjs".toList,
        .ofText "/g/a_pb.js_pb.cjs".toList] ∧
      (plan.Pairwise fun a b => ¬ a.new.Same b.new) ∧
      (∀ m ∈ plan, m.oldStem.Same m.newStem) ∧
      (∃ m ∈ plan, ∃ m' ∈ plan, m.rule = .implementation ∧ m'.rule = .declaration ∧
        m.oldStem.Same m'.oldStem) ∧
      RenamePlan.of (files.map (newPath plan)) RenameRule.dualModule = [] := by
  intro files plan
  have hdistinct : files.Pairwise fun p q => ¬ p.Same q := by decide +kernel
  obtain ⟨hnew, -, -, hstems, -, -, hagain⟩ := dualModule_coherent hdistinct
  exact ⟨hdistinct, by decide +kernel, hnew, fun m hm => (hstems m hm).1, by decide +kernel, hagain⟩

end RenamePlan

end DualModule
