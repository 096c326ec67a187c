import DualModule.Proofs.Survey
/-!
# Renaming next to others

The rename pass keeps everything (`renameBelow_keeps`): whatever other parties create while it is
under way, and whichever of its links and unlinks are refused, in every state each entry is where it
was or, if it has been renamed, at its new place.  This holds also after a failure.

The proof goes on with the outline of the pass where the plan has been checked.

* Between two renames (`Performing`), what has been taken away are the old names of the mappings
  that are done, and the other mappings have their files still.
* Between the two steps of a rename (`Linked`), the file has both names.  Nobody else's entry is at
  the new place, since that was free when the file was linked there and has been taken since then.
  So either name may be taken away.

## Main Definitions

* `Performing`, `Linked`
-/

namespace DualModule

variable {t u v : FileTree} {host : Host} {rules : List RenameRule} {past : List Event}
variable {l d : Location} {o n : FileName} {node : Node}

open Attempt Procedure

/-! ### The renames -/

/-- Some mappings are done and others are to come: the names that have been taken away are the old
names of those that are done, and the others have their files still. -/
structure Performing (rules : List RenameRule) (t : FileTree) (finished rest : List Mapping)
    (past : List Event) (u : FileTree) : Prop where
  kept : t.Kept rules past u
  removed_iff : ∀ l, .removed l ∈ past ↔ ∃ m ∈ finished, l = m.old.location
  apart : (finished ++ rest).Pairwise Mapping.Apart
  planned : ∀ m ∈ finished ++ rest, Mapping.ofFile? rules m.old.location.path = some m
  renames : ∀ m ∈ rest, ∃ d o n, m.Renames u d o n

/-- The file of a mapping has both its names, and nobody else's entry is at the new one. -/
structure Linked (rules : List RenameRule) (t : FileTree) (finished : List Mapping) (m : Mapping)
    (rest : List Mapping) (past : List Event) (u : FileTree) : Prop
    extends Performing rules t finished (m :: rest) past u where
  same : u.get? m.new.location = u.get? m.old.location
  ne : m.new.location ≠ m.old.location
  own : ∀ node since, ¬ t.Entered past m.new.location node since

section Perform

variable {finished rest : List Mapping} {m : Mapping}

namespace Performing

/-- An event that takes no name away leaves as much to do as there was. -/
theorem cons {e : Event} (h : Performing rules t finished rest past u)
    (hkept : t.Kept rules (e :: past) v) (hevent : ∀ l, e ≠ .removed l)
    (hkeeps : ∀ {k node}, u.get? k = some node → v.get? k = some node) :
    Performing rules t finished rest (e :: past) v := by
  refine ⟨hkept, fun l => ?_, h.apart, h.planned, fun m hm => ?_⟩
  · rw [List.mem_cons, or_iff_right (hevent l).symm, h.removed_iff]
  · obtain ⟨d, o, n, hrenames⟩ := h.renames m hm
    exact ⟨d, o, n, hrenames.keep fun _ => hkeeps⟩

theorem create (h : Performing rules t finished rest past u) (hfree : u.get? (n :: d) = none)
    (hupdated : u.Updated (n :: d) (some node) v) :
    Performing rules t finished rest (.created (n :: d) node :: past) v :=
  h.cons (h.kept.create hfree hupdated) (by simp) (hupdated.keeps hfree)

/-- A mapping that is done and the next one take nothing from each other. -/
theorem apart_next (h : Performing rules t finished (m :: rest) past u) {m' : Mapping}
    (hm' : m' ∈ finished) : m'.Apart m :=
  (List.pairwise_append.1 h.apart).2.2 m' hm' m List.mem_cons_self

/-- What has been renamed has not been renamed to a place that the next mapping needs. -/
theorem apart_of_removed (h : Performing rules t finished (m :: rest) past u)
    (hl : .removed l ∈ past) : ∃ m', Mapping.ofFile? rules l.path = some m' ∧ l = m'.old.location ∧
      m'.Apart m := by
  obtain ⟨m', hm', rfl⟩ := (h.removed_iff l).1 hl
  exact ⟨m', h.planned m' (List.mem_append_left _ hm'), rfl, h.apart_next hm'⟩

theorem new_notMem (h : Performing rules t finished (m :: rest) past u) :
    .removed m.new.location ∉ past := by
  intro hmem
  obtain ⟨m', -, hl, hapart⟩ := h.apart_of_removed hmem
  exact hapart.old_ne_new hl.symm

theorem old_notMem (h : Performing rules t finished (m :: rest) past u) :
    .removed m.old.location ∉ past := by
  intro hmem
  obtain ⟨m', -, hl, hapart⟩ := h.apart_of_removed hmem
  exact hapart.old_ne_old hl.symm

/-- **The file is linked** to a place that was free. -/
theorem link (h : Performing rules t finished (m :: rest) past u)
    (hfree : u.get? m.new.location = none)
    (hupdated : u.Updated m.new.location (u.get? m.old.location) v) :
    Linked rules t finished m rest (.answered (.link m.old m.new) (.ok ()) :: past) v := by
  obtain ⟨d, o, n, hm⟩ := h.renames m List.mem_cons_self
  obtain ⟨content, executable, hfile⟩ := hm.file
  rw [← hm.old_location] at hfile
  rw [hfile] at hupdated
  refine ⟨h.cons (h.kept.link hfree h.new_notMem hupdated) (by simp) (hupdated.keeps hfree),
    ?_, ?_, ?_⟩
  · rw [hupdated.get?_self, hupdated.keeps hfree hfile]
  · intro heq
    rw [heq, hfile] at hfree
    cases hfree
  · -- an entry that came to be there would be there still, and the place is free
    intro node since hentered
    obtain ⟨since', -, hentered⟩ := FileTree.entered_answered_iff.1 hentered
    rw [h.kept.stays hentered fun hmem => h.new_notMem (hentered.subset hmem)] at hfree
    cases hfree

end Performing

namespace Linked

/-- Both names are canonical, and at the old one there is a file. -/
theorem canonical (h : Linked rules t finished m rest past u) :
    m.old = m.old.location.path ∧ m.new = m.new.location.path ∧
      ∃ content executable, u.get? m.old.location = some (.file content executable) := by
  obtain ⟨d, o, n, hm⟩ := h.renames m List.mem_cons_self
  rw [hm.old_location, hm.new_location]
  exact ⟨hm.old, hm.new, hm.file⟩

theorem create (h : Linked rules t finished m rest past u) (hfree : u.get? (n :: d) = none)
    (hupdated : u.Updated (n :: d) (some node) v) :
    Linked rules t finished m rest (.created (n :: d) node :: past) v := by
  obtain ⟨-, -, content, executable, hold⟩ := h.canonical
  have hnew := h.same.trans hold
  refine ⟨h.toPerforming.create hfree hupdated, ?_, h.ne, ?_⟩
  · rw [hupdated.keeps hfree hnew, hupdated.keeps hfree hold]
  · intro node' since hentered
    rcases FileTree.entered_cons_iff.1 hentered with ⟨since', -, hentered⟩ | ⟨hcreated, -⟩
    · exact h.own node' since' hentered
    · injection hcreated with hplace _
      rw [hplace, hnew] at hfree
      cases hfree

/-- The old name stays. -/
theorem refuse (h : Linked rules t finished m rest past u) (cause : SystemError) :
    Linked rules t finished m rest (.answered (.unlink m.old) (.error cause) :: past) u := by
  refine ⟨h.cons (h.kept.unchanged (by simp)) (by simp) id, h.same, h.ne, ?_⟩
  intro node since hentered
  obtain ⟨since', -, hentered⟩ := FileTree.entered_answered_iff.1 hentered
  exact h.own node since' hentered

/-- **The old name is taken away**, and the mapping is done. -/
theorem finish (h : Linked rules t finished m rest past u)
    (hupdated : u.Updated m.old.location none v) :
    Performing rules t (finished ++ [m]) rest (.removed m.old.location :: past) v := by
  have hsplit : finished ++ [m] ++ rest = finished ++ m :: rest := by simp
  have hkept : t.Kept rules (.removed m.old.location :: past) v := by
    refine h.kept.remove hupdated ?_ ?_
    · intro l m' hl hm'
      obtain ⟨m'', hm'', -, hapart⟩ := h.apart_of_removed hl
      cases hm'.symm.trans hm''
      exact hapart.new_ne_old
    · intro node since hentered
      have hnot : .removed m.old.location ∉ since := fun hmem =>
        h.old_notMem (hentered.subset hmem)
      refine ⟨hnot, m, h.planned m (List.mem_append_right _ List.mem_cons_self), ?_⟩
      rw [hupdated.get?_of_ne h.ne, h.same]
      exact h.kept.stays hentered hnot
  refine ⟨hkept, fun l => ?_, hsplit ▸ h.apart, hsplit ▸ h.planned, fun m' hm' => ?_⟩
  · constructor
    · intro hl
      rcases List.mem_cons.1 hl with hl | hl
      · exact ⟨m, by simp, FileTree.removed_injective hl⟩
      · obtain ⟨m', hm', hl⟩ := (h.removed_iff l).1 hl
        exact ⟨m', List.mem_append_left _ hm', hl⟩
    · rintro ⟨m', hm', rfl⟩
      rcases List.mem_append.1 hm' with hm' | hm'
      · exact List.mem_cons_of_mem _ ((h.removed_iff _).2 ⟨m', hm', rfl⟩)
      · rw [List.mem_singleton.1 hm']
        exact List.mem_cons_self
  · obtain ⟨d, o, n, hrenames⟩ := h.renames m' (List.mem_cons_of_mem _ hm')
    refine ⟨d, o, n, hrenames.keep fun node hnode => ?_⟩
    have hapart : m.Apart m' :=
      (List.pairwise_cons.1 (List.pairwise_append.1 h.apart).2.1).1 m' hm'
    rw [hupdated.get?_of_ne, hnode]
    rw [← hrenames.old_location]
    exact hapart.old_ne_old.symm

/-- **The new name is taken back**: it is nobody else's. -/
theorem undo (h : Linked rules t finished m rest past u)
    (hupdated : u.Updated m.new.location none v) :
    t.Kept rules (.removed m.new.location :: past) v := by
  refine h.kept.remove hupdated ?_ ?_
  · intro l m' hl hm'
    obtain ⟨m'', hm'', -, hapart⟩ := h.apart_of_removed hl
    cases hm'.symm.trans hm''
    exact hapart.new_ne_new
  · intro node since hentered
    exact absurd hentered (h.own node since)

end Linked

/-- The assertion between two renames. -/
def performing (rules : List RenameRule) (t : FileTree) (finished rest : List Mapping) :
    Assertion (kept rules t) where
  Holds := Performing rules t finished rest
  stable := Performing.create
  safe h := h.kept

/-- The assertion between the two steps of a rename. -/
def linked (rules : List RenameRule) (t : FileTree) (finished : List Mapping) (m : Mapping)
    (rest : List Mapping) : Assertion (kept rules t) where
  Holds := Linked rules t finished m rest
  stable := Linked.create
  safe h := h.kept

/-- How a link to a new name is answered: it is refused, or the place was free. -/
theorem Request.Answers.link {reply : Except SystemError Unit} (hm : m.Renames u d o n)
    (h : Answers host u (.link m.old m.new) reply v) :
    (∃ cause, reply = .error cause ∧ v = u) ∨
      (reply = .ok () ∧ u.get? m.new.location = none ∧
        u.Updated m.new.location (u.get? m.old.location) v) := by
  rcases h with h | ⟨⟨cause, h⟩, rfl⟩
  · obtain ⟨content, executable, hfile⟩ := hm.file
    have hd := FileTree.parent_of_eq_some hfile
    rw [Request.answer, hm.old, hm.new] at h
    rw [hm.new_location, hm.old_location]
    by_cases hfree : u.get? (n :: d) = none
    · obtain ⟨w, hw, hlinked⟩ := FileTree.link_path host.here hfile hm.addressable hfree hd
      rw [hw] at h
      obtain ⟨rfl, rfl⟩ := Prod.mk.inj h
      exact Or.inr ⟨rfl, hfree, hlinked.updated⟩
    · rw [FileTree.link_path_eq_error hfile hm.addressable hfree hd] at h
      obtain ⟨rfl, rfl⟩ := Prod.mk.inj h
      exact Or.inl ⟨_, rfl, rfl⟩
  · cases h
    exact Or.inl ⟨cause, rfl, rfl⟩

/-- How taking a name away is answered: it is refused, or the name is gone. -/
theorem Request.Answers.unlink {p : Path} {reply : Except SystemError Unit} (hp : p = l.path)
    (hnode : u.get? l = some node) (hdirectory : node ≠ .directory)
    (h : Answers host u (.unlink p) reply v) :
    (∃ cause, reply = .error cause ∧ v = u) ∨ (reply = .ok () ∧ u.Updated l none v) := by
  subst hp
  rcases h with h | ⟨⟨cause, h⟩, rfl⟩
  · cases l with
    | nil =>
        rw [u.get?_nil] at hnode
        exact absurd (Option.some.inj hnode).symm hdirectory
    | cons n d =>
        obtain ⟨w, hw, hunlinked⟩ := FileTree.unlink_path host.here hnode hdirectory
        rw [Request.answer, hw] at h
        obtain ⟨rfl, rfl⟩ := Prod.mk.inj h
        exact Or.inr ⟨rfl, hunlinked.updated⟩
  · cases h
    exact Or.inl ⟨cause, rfl, rfl⟩

theorem link_outline (explain : SystemError → PassError) :
    (explained (.request (.link m.old m.new)) explain).Outline host
      (performing rules t finished (m :: rest)) fun _ => linked rules t finished m rest := by
  refine Attempt.Outline.explained (Outline.request ?_)
  intro past u reply v h hanswer
  obtain ⟨d, o, n, hm⟩ := h.renames m List.mem_cons_self
  rcases hanswer.link hm with ⟨cause, rfl, rfl⟩ | ⟨rfl, hfree, hupdated⟩
  · exact h.kept.unchanged (by simp)
  · exact h.link hfree hupdated

theorem unlink_old_outline :
    (Procedure.request (.unlink m.old)).Outline host (linked rules t finished m rest)
      fun
        | .ok () => performing rules t (finished ++ [m]) rest
        | .error _ => linked rules t finished m rest := by
  refine Outline.request ?_
  intro past u reply v h hanswer
  obtain ⟨hold, -, content, executable, hfile⟩ := h.canonical
  rcases hanswer.unlink hold hfile (by simp) with ⟨cause, rfl, rfl⟩ | ⟨rfl, hupdated⟩
  · exact h.refuse cause
  · have hfinish := h.finish hupdated
    rw [Event.removed, ← hold] at hfinish
    exact hfinish

theorem unlink_new_outline :
    (Procedure.request (.unlink m.new)).Outline host (linked rules t finished m rest)
      fun _ => .weakest (kept rules t) := by
  refine Outline.request ?_
  intro past u reply v h hanswer
  obtain ⟨-, hnew, content, executable, hfile⟩ := h.canonical
  rcases hanswer.unlink hnew (h.same.trans hfile) (by simp) with ⟨cause, rfl, rfl⟩ | ⟨rfl, hupdated⟩
  · exact h.kept.unchanged (by simp)
  · have hundo := h.undo hupdated
    rw [Event.removed, ← hnew] at hundo
    exact hundo

/-- **One rename** takes one mapping further. -/
theorem perform_outline :
    m.perform.Outline host (performing rules t finished (m :: rest))
      fun _ => performing rules t (finished ++ [m]) rest := by
  rw [Mapping.perform]
  refine (link_outline _).bind fun _ => ?_
  refine (Attempt.Outline.lift unlink_old_outline).bind fun reply => ?_
  cases reply with
  | ok _ => exact Attempt.Outline.pure (Assertion.le_refl _)
  | error cause =>
      refine (Attempt.Outline.lift unlink_new_outline).bind fun _ => ?_
      exact Attempt.Outline.throw _ _ _

theorem forM_perform_outline :
    (rest.forM Mapping.perform).Outline host (performing rules t finished rest)
      fun _ => performing rules t (finished ++ rest) [] := by
  induction rest generalizing finished with
  | nil =>
      rw [List.append_nil]
      exact Attempt.Outline.pure (Assertion.le_refl _)
  | cons m rest ih =>
      have hsplit : finished ++ m :: rest = finished ++ [m] ++ rest := by simp
      rw [hsplit]
      exact perform_outline.bind fun _ => ih

end Perform

/-- **A plan that has been checked** can be carried out. -/
theorem Checking.performing {plan : List Mapping} (h : Checking t plan plan.reverse past u)
    (hplanned : ∀ m ∈ plan, Mapping.ofFile? rules m.old = some m) :
    Performing rules t [] plan past u := by
  have hrenames : ∀ m ∈ plan, ∃ d o n, m.Renames u d o n ∧
      ∀ m' ∈ plan, m'.old.location ≠ m.new.location := by
    intro m hm
    exact h.renames m (List.mem_reverse.2 hm)
  refine ⟨h.kept, fun l => ?_, ?_, fun m hm => ?_, fun m hm => ?_⟩
  · simpa using h.nothing_removed l
  · refine (List.pairwise_reverse.1 h.distinct).imp_of_mem fun {a b} ha hb hnew => ?_
    obtain ⟨da, oa, na, hra, hnea⟩ := hrenames a ha
    obtain ⟨db, ob, nb, hrb, hneb⟩ := hrenames b hb
    refine hra.apart hrb ?_ (fun hsame => hnew hsame.symm) (hneb a ha) (hnea b hb)
    -- two mappings of one file would be the same, and so would their new paths
    intro hold
    have hab : a = b := by
      have ha' := hplanned a ha
      rw [hold, hplanned b hb] at ha'
      exact (Option.some.inj ha').symm
    subst hab
    exact hnew rfl
  · obtain ⟨d, o, n, hr, -⟩ := hrenames m hm
    rw [hr.old_location, ← hr.old]
    exact hplanned m hm
  · obtain ⟨d, o, n, hr, -⟩ := hrenames m hm
    exact ⟨d, o, n, hr⟩

/-! ### The pass -/

theorem renameBelow_outline (hhere : t.get? host.here = some .directory)
    (hrules : ∀ rule ∈ rules, '/' ∉ rule.replacementSuffix) (root : Path) :
    (renameBelow root rules).Outline host (surveyed rules t [])
      fun plan => performing rules t plan [] := by
  rw [renameBelow]
  refine (filesBelow_outline hhere root).bind fun files => ?_
  have hplanned : ∀ m ∈ RenamePlan.of files rules, Mapping.ofFile? rules m.old = some m := by
    intro m hm
    obtain ⟨f, -, hf⟩ := RenamePlan.mem_of_iff.1 hm
    rw [Mapping.old_of_ofFile? hf, hf]
  have hcheck : (RenamePlan.check (RenamePlan.of files rules)).Outline host (listed rules t files)
      fun _ => performing rules t [] (RenamePlan.of files rules) := by
    have hlisted : listed rules t files ≤ checking rules t (RenamePlan.of files rules) [] :=
      fun _ _ h => Listed.checking h hrules
    refine ((checkFrom_outline fun _ => id).weaken hlisted).conseq ?_
    intro _ past u h
    rw [List.append_nil] at h
    exact Checking.performing h hplanned
  refine hcheck.bind fun _ => forM_perform_outline.bind fun _ => Attempt.Outline.pure ?_
  rw [List.nil_append]
  exact Assertion.le_refl _

/-- **The rename pass keeps everything**, whatever turns are taken.  In every state each entry, be
it of the first tree or another party's, is as it was, at its place or at the one that the rules give
it; what has been renamed is at its new place and has lost its old name; and if the pass has
succeeded, all planned files have been renamed. -/
theorem renameBelow_keeps {root : Path} (hhere : t.get? host.here = some .directory)
    (hrules : ∀ rule ∈ rules, '/' ∉ rule.replacementSuffix) (turns : List Turn) :
    let s := (State.start (ExceptT.run (renameBelow root rules)) t).after host turns
    (∀ l node since, t.Entered s.past l node since → s.tree.get? l = some node ∨
      ∃ m, Mapping.ofFile? rules l.path = some m ∧ s.tree.get? m.new.location = some node) ∧
    t.Kept rules s.past s.tree ∧
    ∀ plan, s.rest = .done (.ok plan) → ∀ m ∈ plan, .removed m.old.location ∈ s.past := by
  intro s
  obtain ⟨hkept, hdone⟩ := Outline.after (renameBelow_outline hhere hrules root)
    ⟨Growing.start t, by simp⟩ turns
  refine ⟨fun l node since hl => FileTree.Kept.present hkept hl, hkept, fun plan hplan m hm => ?_⟩
  exact ((hdone _ hplan).removed_iff _).2 ⟨m, hm, rfl⟩

/-- The tree with two modules. -/
def twoModulesTree : FileTree :=
  .ofEntries [("/t/a_pb.js", .file [0x61] false), ("/t/b_pb.js", .file [0x62] false)]

/-- One module is renamed, and another party uses its old name; the other one is linked, but its old
name cannot be taken away, and the new one is taken back. -/
theorem renameBelow_keeps_reused_name :
    let d : Location := [⟨Utf8.encode "t".toList, by decide⟩]
    let turns : List Turn := [.answer, .answer, .answer, .answer, .answer, .answer,
      .create ⟨Utf8.encode "a_pb.js".toList, by decide⟩ d (.file [0x63] false),
      .answer, .refuse .accessDenied, .answer]
    let s := (State.start (ExceptT.run (renameBelow d.path RenameRule.dualModule))
      twoModulesTree).after .plain turns
    twoModulesTree.get? Host.plain.here = some .directory ∧
      (∀ rule ∈ RenameRule.dualModule, '/' ∉ rule.replacementSuffix) ∧
      s.tree.get? (Path.ofText "/t/a_pb.cjs".toList).location = some (.file [0x61] false) ∧
      s.tree.get? (Path.ofText "/t/a_pb.js".toList).location = some (.file [0x63] false) ∧
      s.tree.get? (Path.ofText "/t/b_pb.js".toList).location = some (.file [0x62] false) ∧
      s.tree.get? (Path.ofText "/t/b_pb.cjs".toList).location = none ∧
      (∀ l node since, twoModulesTree.Entered s.past l node since → s.tree.get? l = some node ∨
        ∃ m, Mapping.ofFile? RenameRule.dualModule l.path = some m ∧
          s.tree.get? m.new.location = some node) ∧
      twoModulesTree.Kept RenameRule.dualModule s.past s.tree ∧
      ∀ plan, s.rest = .done (.ok plan) → ∀ m ∈ plan, .removed m.old.location ∈ s.past :=
  ⟨by decide +kernel, by decide, by decide +kernel, by decide +kernel, by decide +kernel,
    by decide +kernel, renameBelow_keeps (by decide +kernel) (by decide) _⟩

end DualModule
