import DualModule.Proofs.AnyWay
import DualModule.Proofs.Idempotence
import DualModule.Proofs.Keeping
import DualModule.Proofs.RenameCompleteness
/-!
# Normalising twice

A target that has been made loadable from both module systems may be normalised again, and nothing
happens (`Target.second_run_changes_nothing`).  The second run finds the files that the first one
left, and no rule applies to any of them, so that its plan is empty.  An empty plan renames nothing,
and it gives every directory an empty table, with which editing is the identity, on text and on
other content alike (`editContent_nil`).

**Files may have several names** here, and both runs may be made in any way.  What the first run
makes of the bytes of such a file depends on the order; but the edits of a run, whatever they read
and write meanwhile, leave the tree the same up to bytes (`FileTree.SameOutline`), and the edits of
the second run write what they have read.

## Main Definitions

* `FileTree.SameOutline`
-/

namespace DualModule

open Attempt

variable {t u v : FileTree} {host : Host} {n : FileName} {d l r : Location} {root : Path}
variable {plan : List Mapping}

/-! ### Editing with an empty table -/

theorem quiet_of_table_nil (text : Text) : Quiet [] text := by
  induction text with
  | nil => exact quiet_nil
  | cons c cs ih => exact quiet_cons_iff.2 ⟨by simp, ih⟩

theorem Replacement.apply_nil (content : Text) : Replacement.apply [] content = ⟨content, 0⟩ := by
  have hcount : (apply [] content).count = 0 :=
    count_eq_zero_iff.2 fun line _ => quiet_of_table_nil line
  have hcontent := content_eq_of_count_eq_zero hcount
  cases happly : apply [] content with
  | mk content' count => simp_all

/-- **Without mappings, content stays as it is**, whether it is text or not. -/
theorem editContent_nil (file : Path) (content : Bytes) :
    editContent [] file content = (content, 0) := by
  rw [editContent]
  cases htext : Utf8.decode? content with
  | none => rfl
  | some text =>
      have htable : Replacement.table file.directory [] = [] := rfl
      simp only [htable, Replacement.apply_nil, Utf8.decode?_eq_some_iff.1 htext]

/-! ### Trees that differ in bytes only -/

/-- A node without the bytes of a file. -/
def Node.shape : Node → Node
  | .file _ executable => .file [] executable
  | node => node

/-- The second tree is the first one, up to the bytes of files. -/
structure FileTree.SameOutline (t u : FileTree) : Prop where
  shape_eq : ∀ l, (u.get? l).map Node.shape = (t.get? l).map Node.shape
  names : t.SameNames u

namespace FileTree

theorem SameOutline.refl (t : FileTree) : t.SameOutline t := ⟨fun _ => rfl, .refl t⟩

/-- A file stays a file. -/
theorem SameOutline.exists_file (h : t.SameOutline u) {content : Bytes} {executable : Bool}
    (hfile : t.get? l = some (.file content executable)) :
    ∃ other, u.get? l = some (.file other executable) := by
  have hshape := h.shape_eq l
  rw [hfile] at hshape
  cases hu : u.get? l with
  | none => simp [hu] at hshape
  | some node => cases node <;> simp_all [Node.shape]

theorem SameOutline.symm (h : t.SameOutline u) : u.SameOutline t :=
  ⟨fun l => (h.shape_eq l).symm, fun l k => (h.names l k).symm⟩

/-- What is no file is unchanged. -/
theorem SameOutline.get?_eq (h : t.SameOutline u)
    (hfile : ∀ content executable, t.get? l ≠ some (.file content executable)) :
    u.get? l = t.get? l := by
  have hshape := h.shape_eq l
  cases ht : t.get? l with
  | none => simpa [ht] using hshape
  | some node =>
      cases hu : u.get? l with
      | none => simp [ht, hu] at hshape
      | some node' => cases node <;> cases node' <;> simp_all [Node.shape]

theorem SameOutline.sameWays (h : t.SameOutline u) : SameWays t u := by
  refine .of_isEnd fun l => ?_
  by_cases hfile : ∃ content executable, t.get? l = some (.file content executable)
  · obtain ⟨content, executable, ht⟩ := hfile
    obtain ⟨other, hu⟩ := h.exists_file ht
    rw [ht, hu]
    exact Or.inr ⟨isEnd_file _ _, isEnd_file _ _⟩
  · simp only [not_exists] at hfile
    exact Or.inl (h.get?_eq hfile)

/-- A file that is written to changes its bytes only, under all its names. -/
theorem SameOutline.overwrite (h : t.SameOutline u) {old : Bytes} {executable : Bool}
    (hfile : u.get? l = some (.file old executable)) (content : Bytes) :
    t.SameOutline (u.overwrite l content executable) := by
  refine ⟨fun k => ?_, h.names.trans (u.sameNames_overwrite _ _ _)⟩
  rw [← h.shape_eq k, get?_overwrite hfile]
  split
  · rw [SameFile.get?_eq ‹_›, hfile]
    rfl
  · rfl

/-- Writing what is there changes nothing. -/
theorem overwrite_eq_self {content : Bytes} {executable : Bool}
    (h : t.get? l = some (.file content executable)) :
    t.overwrite l content executable = t := by
  refine FileTree.ext (fun k => ?_) (t.sameNames_overwrite _ _ _)
  rw [get?_overwrite h]
  split
  · rw [SameFile.get?_eq ‹_›, h]
  · rfl

theorem SameOutline.path_mem_iff (h : t.SameOutline u) :
    l.path ∈ u.filesUnder r ↔ l.path ∈ t.filesUnder r := by
  have hmem : ∀ {t u : FileTree}, t.SameOutline u → l.path ∈ t.filesUnder r →
      l.path ∈ u.filesUnder r := by
    intro t u h hl
    obtain ⟨hbelow, content, executable, hfile⟩ := file_of_path_mem hl
    obtain ⟨other, hu⟩ := h.exists_file hfile
    exact path_mem_filesUnder hbelow hu
  exact ⟨hmem h.symm, hmem h⟩

/-- Every file is at the canonical path of some location. -/
theorem exists_path_of_mem {p : Path} (h : p ∈ t.filesUnder r) : ∃ l : Location, p = l.path := by
  obtain ⟨l, -, -, -, -, rfl⟩ := mem_filesUnder_iff.1 h
  exact ⟨l, rfl⟩

theorem SameOutline.filesUnder_perm (h : t.SameOutline u) :
    (u.filesUnder r).Perm (t.filesUnder r) := by
  refine (List.perm_ext_iff_of_nodup (u.filesUnder_nodup r) (t.filesUnder_nodup r)).2 fun p => ?_
  constructor
  · intro hp
    obtain ⟨l, rfl⟩ := exists_path_of_mem hp
    exact h.path_mem_iff.1 hp
  · intro hp
    obtain ⟨l, rfl⟩ := exists_path_of_mem hp
    exact h.path_mem_iff.2 hp

end FileTree

/-! ### Edits that get in each other's way -/

section Edits

variable {I : FileTree → Prop}

/-- **Editing a file** that others may change at any time.  What it reads is known to be of some
kind, and what it makes of such content may be written at any time. -/
theorem editFile_achieves (executable : Bool) (known : Bytes → Prop)
    (hread : ∀ t, I t → ∃ content, t.get? (n :: d) = some (.file content executable) ∧ known content)
    (hwrite : ∀ t content, I t → known content → I (t.overwrite (n :: d)
      (editContent plan (Location.path (n :: d)) content).1 executable)) :
    (editFile plan (Location.path (n :: d))).run.Achieves host I fun edit =>
      ∃ content, known content ∧
        edit.replacements = (editContent plan (Location.path (n :: d)) content).2 := by
  have hreads : (Procedure.request (.read (Location.path (n :: d)))).Achieves host I known := by
    refine Procedure.Keeps.request fun t ht => ⟨ht, ?_⟩
    obtain ⟨content, hfile, hknown⟩ := hread t ht
    exact ⟨content, FileTree.read_path hfile, hknown⟩
  refine achieves_bind (achieves_explained hreads _) fun content hknown => ?_
  let edited := (editContent plan (Location.path (n :: d)) content).1
  have hwrites : (Procedure.request (.write (Location.path (n :: d)) edited)).Achieves host I
      fun _ => True := by
    refine Procedure.Keeps.request fun t ht => ?_
    obtain ⟨old, hfile, -⟩ := hread t ht
    rw [Request.answer, FileTree.write_path host.here hfile]
    exact ⟨hwrite t content ht hknown, (), rfl, trivial⟩
  refine achieves_bind (achieves_explained hwrites _) fun _ _ => achieves_pure ?_
  exact ⟨content, hknown, rfl⟩

/-- What follows something that comes to the same in all ways. -/
theorem AttemptWays.exists_of_mem_bind {ε α β : Type} {w : AttemptWays ε α}
    {f : α → AttemptWays ε β} {a : Attempt ε α} {x : α} {p : Procedure (Except ε β)}
    (h : w.Alike host .any Set.univ t a) (hrun : a.outcome host t = (.ok x, u))
    (hp : p ∈ (w >>= f).run) : ∃ q ∈ (f x).run, p.run host t = q.run host u := by
  rw [ExceptT.run_bind] at hp
  obtain ⟨q, hq, next, hnext, rfl⟩ := hp
  have hqrun : q.run host t = (.ok x, u) := (Ways.alike_everywhere_iff.1 h q hq).trans hrun
  refine ⟨next (.ok x), hnext (.ok x), ?_⟩
  rw [Procedure.run_bind, hqrun]

/-- **The import pass in any way**: it visits the files of the directory, and keeps what the edits
keep. -/
theorem editImportsWays_keeps {good : FileEdit → Prop} {p : Procedure (Except PassError EditSummary)}
    (hhere : t.get? host.here = some .directory)
    (hroot : t.canonical host.here root = .ok r.path) (hr : t.get? r = some .directory) (ht : I t)
    (hedit : ∀ f ∈ t.filesUnder r, (editFile plan f).run.Achieves host I good)
    (hp : p ∈ (editImportsWays root plan).run) :
    ∃ outcomes u, p.run host t = (.ok (.ofOutcomes outcomes), u) ∧ I u ∧
      outcomes.length = (t.filesUnder r).length ∧ ∀ edit ∈ outcomes, good edit := by
  obtain ⟨files, hfiles, hperm⟩ := filesBelow_outcome hroot hr
  obtain ⟨q, hq, hrun⟩ :=
    AttemptWays.exists_of_mem_bind (filesBelowWays_everywhere hhere) hfiles hp
  rw [ExceptT.run_bind] at hq
  obtain ⟨joined, ⟨chosen, hchosen, hjoins⟩, next, hnext, rfl⟩ := hq
  -- each of the jobs edits a file of the directory
  have hjobs : chosen = files.map fun f => (editFile plan f).run := by
    rw [List.map_map, List.forall₂_map_right_iff] at hchosen
    exact List.forall₂_eq_eq_eq ▸ List.forall₂_map_right_iff.2 hchosen
  subst hjobs
  have hachieves := hjoins.achieves fun job hjob => by
    obtain ⟨f, hf, rfl⟩ := List.mem_map.1 hjob
    exact hedit f (hperm.mem_iff.1 hf)
  obtain ⟨⟨outcomes, hok, hlength, hgood⟩, hu⟩ := hachieves.run ht
  refine ⟨outcomes, _, ?_, hu, ?_, hgood⟩
  · rw [hrun, Procedure.run_bind, hok]
    have hlast : next (.ok outcomes) = pure (.ok (.ofOutcomes outcomes)) := hnext (.ok outcomes)
    rw [hlast]
    rfl
  · rw [hlength, List.length_map, hperm.length_eq]

end Edits

/-- **The first time**: the files are visited, and get other bytes at most. -/
theorem editImportsWays_outline {p : Procedure (Except PassError EditSummary)}
    (hhere : t.get? host.here = some .directory)
    (hroot : t.canonical host.here root = .ok r.path) (hr : t.get? r = some .directory)
    (hp : p ∈ (editImportsWays root plan).run) :
    ∃ summary u, p.run host t = (.ok summary, u) ∧ t.SameOutline u ∧
      summary.filesVisited = (t.filesUnder r).length := by
  have hedit : ∀ f ∈ t.filesUnder r,
      (editFile plan f).run.Achieves host t.SameOutline fun _ => True := by
    intro f hf
    obtain ⟨n, d, content, executable, rfl, hfile⟩ := FileTree.exists_file_of_mem hf
    refine (editFile_achieves executable (fun _ => True) ?_ ?_).imp
      fun _ _ => trivial
    · intro u hu
      obtain ⟨other, hother⟩ := hu.exists_file hfile
      exact ⟨other, hother, trivial⟩
    · intro u content hu _
      obtain ⟨other, hother⟩ := hu.exists_file hfile
      exact hu.overwrite hother _
  obtain ⟨outcomes, u, hrun, hu, hlength, -⟩ :=
    editImportsWays_keeps hhere hroot hr (.refl t) hedit hp
  exact ⟨_, u, hrun, hu, hlength⟩

theorem EditSummary.ofOutcomes_of_quiet {outcomes : List FileEdit}
    (h : ∀ edit ∈ outcomes, edit.replacements = 0) :
    EditSummary.ofOutcomes outcomes = ⟨outcomes.length, 0, 0⟩ := by
  induction outcomes with
  | nil => rfl
  | cons edit outcomes ih =>
      obtain ⟨hedit, houtcomes⟩ := List.forall_mem_cons.1 h
      have hrest := ih houtcomes
      simp only [ofOutcomes, EditSummary.mk.injEq, true_and] at hrest ⊢
      simp [hedit, hrest.1, hrest.2]

/-- **With an empty plan**: the files are visited, and written as they were read. -/
theorem editImportsWays_nil {p : Procedure (Except PassError EditSummary)}
    (hhere : t.get? host.here = some .directory)
    (hroot : t.canonical host.here root = .ok r.path) (hr : t.get? r = some .directory)
    (hp : p ∈ (editImportsWays root []).run) :
    p.run host t = (.ok ⟨(t.filesUnder r).length, 0, 0⟩, t) := by
  have hedit : ∀ f ∈ t.filesUnder r,
      (editFile [] f).run.Achieves host (· = t) fun edit => edit.replacements = 0 := by
    intro f hf
    obtain ⟨n, d, content, executable, rfl, hfile⟩ := FileTree.exists_file_of_mem hf
    refine (editFile_achieves executable (· = content) ?_ ?_).imp ?_
    · rintro _ rfl
      exact ⟨content, hfile, rfl⟩
    · rintro _ _ rfl rfl
      rw [editContent_nil]
      exact FileTree.overwrite_eq_self hfile
    · rintro edit ⟨_, -, hcount⟩
      rw [hcount, editContent_nil]
  obtain ⟨outcomes, u, hrun, rfl, hlength, hquiet⟩ :=
    editImportsWays_keeps (I := (· = t)) hhere hroot hr rfl hedit hp
  rw [hrun, EditSummary.ofOutcomes_of_quiet hquiet, hlength]

/-! ### The second run -/

/-- Where no rule applies to any file, the rename pass has nothing to do. -/
theorem renameBelow_outcome_nil {rules : List RenameRule}
    (hhere : t.get? host.here = some .directory)
    (hrules : ∀ rule ∈ rules, '/' ∉ rule.replacementSuffix)
    (hroot : t.canonical host.here root = .ok r.path) (hr : t.get? r = some .directory)
    (hnone : ∀ l : Location, l.path ∈ t.filesUnder r → Mapping.ofFile? rules l.path = none) :
    (renameBelow root rules).outcome host t = (.ok [], t) := by
  have hplan : RenamePlan.of (t.filesUnder r) rules = [] := by
    rw [List.eq_nil_iff_forall_not_mem]
    intro m hm
    obtain ⟨f, hf, hfm⟩ := RenamePlan.mem_of_iff.1 hm
    obtain ⟨l, rfl⟩ := FileTree.exists_path_of_mem hf
    rw [hnone l hf] at hfm
    cases hfm
  have hfeasible : RenamePlan.Feasible host t (RenamePlan.of (t.filesUnder r) rules) := by
    rw [hplan]
    exact ⟨List.Pairwise.nil, by simp, by simp⟩
  obtain ⟨u, hrun⟩ := renameBelow_outcome_of_feasible hrules hroot hr hfeasible
  rw [hplan] at hrun
  obtain ⟨_, -, -, -, hrenamed⟩ := renamed_of_renameBelow hhere hrules hrun
  have hsame : u = t := FileTree.Moved.eq_of_nil hrenamed.moved
  rw [hrun, hsame]

namespace Target

variable {target : Target} {p q : Procedure Report}

/-- **A tree with nothing to rename** is left as it is. -/
theorem run_eq_of_nothing_to_rename (hhere : t.get? host.here = some .directory)
    (hpost : target.postProcess = some .dualModule)
    (hroot : t.canonical host.here target.out = .ok r.path) (hr : t.get? r = some .directory)
    (hnone : ∀ l : Location, l.path ∈ t.filesUnder r →
      Mapping.ofFile? RenameRule.dualModule l.path = none) (hp : p ∈ target.ways) :
    p.run host t = (target.doneReport 0 ⟨(t.filesUnder r).length, 0, 0⟩, t) := by
  obtain ⟨edits, hedits, hrun⟩ := exists_edits_of_mem_ways hhere hpost hp
  rw [hrun, renameBelow_outcome_nil hhere (by decide) hroot hr hnone]
  simp only [editImportsWays_nil hhere hroot hr (hedits []), List.length_nil]

/-- **Normalising a normalised tree changes nothing.**  If a target without a generator gets done, a
second run gets done as well: it renames nothing, replaces nothing, visits as many files, and leaves
the tree as the first run left it.  This holds whichever ways the two runs are made in, and whichever
locations are names of one file. -/
theorem second_run_changes_nothing (hhere : t.get? host.here = some .directory)
    (hpost : target.postProcess = some .dualModule) (hp : p ∈ target.ways) (hq : q ∈ target.ways)
    (hdone : (p.run host t).1.stage = .done) :
    let first := p.run host t
    let second := q.run host first.2
    second.2 = first.2 ∧ second.1.stage = .done ∧ second.1.renamed = 0 ∧
      ∃ summary, first.1.edits = some summary ∧
        second.1.edits = some ⟨summary.filesVisited, 0, 0⟩ := by
  intro first second
  obtain ⟨plan, u, summary, v, hrename, ⟨e, he, hedit⟩, hfirst⟩ :=
    exists_passes_of_done hhere hpost hp hdone
  obtain ⟨r, hroot, hr, rfl, hrenamed⟩ := renamed_of_renameBelow hhere (by decide) hrename
  obtain ⟨summary', v', hedit', houtline, hvisited⟩ := editImportsWays_outline
    ((hrenamed.sameWays.directory _).1 hhere) (hrenamed.sameWays.canonical_eq hr hroot)
    ((hrenamed.sameWays.directory r).1 hr) he
  obtain ⟨hsummary, rfl⟩ := Prod.mk.inj (hedit.symm.trans hedit')
  obtain rfl := Except.ok.inj hsummary
  -- the root leads to the same directory after both passes, and no rule applies to a file there
  have hways := hrenamed.sameWays.trans houtline.sameWays
  have hnone : ∀ l : Location, l.path ∈ v.filesUnder r →
      Mapping.ofFile? RenameRule.dualModule l.path = none := by
    intro l hl
    exact hrenamed.ofFile?_eq_none (houtline.path_mem_iff.1 hl)
  have hsecond : second = (target.doneReport 0 ⟨(v.filesUnder r).length, 0, 0⟩, v) := by
    simp only [second, first, hfirst]
    exact run_eq_of_nothing_to_rename ((hways.directory _).1 hhere) hpost
      (hways.canonical_eq hr hroot) ((hways.directory r).1 hr) hnone hq
  rw [hsecond, show first = _ from hfirst]
  refine ⟨rfl, rfl, rfl, summary, rfl, ?_⟩
  rw [hvisited, ← houtline.filesUnder_perm.length_eq]
  rfl

end Target

/-- The tree with a module, its importer, a link and a file that is no text, normalised twice. -/
theorem smallTree_second_run :
    let target : Target := ⟨"t".toList, .ofText "/t".toList, [], some .dualModule⟩
    let first := (target.run none).run .plain smallTree
    let second := (target.run none).run .plain first.2
    smallTree.get? Host.plain.here = some .directory ∧ target.postProcess = some .dualModule ∧
      target.run none ∈ target.ways ∧ first.1.stage = .done ∧ first.1.renamed = 1 ∧
      second.2 = first.2 ∧ second.1.stage = .done ∧ second.1.renamed = 0 ∧
      ∃ summary, first.1.edits = some summary ∧
        second.1.edits = some ⟨summary.filesVisited, 0, 0⟩ := by
  intro target
  have hdone : ((target.run none).run .plain smallTree).1.stage = .done := by decide +kernel
  exact ⟨by decide +kernel, rfl, target.run_mem_ways, hdone, by decide +kernel,
    Target.second_run_changes_nothing (by decide +kernel) rfl target.run_mem_ways
      target.run_mem_ways hdone⟩

end DualModule
