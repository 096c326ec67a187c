import DualModule.Proofs.ConfinedPasses
/-!
# Targets run in any way

Within a target requests may be under way together, so that a target can be run in many ways
(`Target.ways`).  If no file below its directory has a second name, then all ways come to the same,
whatever links there are (`Target.run_eq_of_mem_ways`), and what is known of the run that asks for
one thing after another holds of all of them.

**Nobody else is there**, so a target needs no region of its own: every request is confined to
everything, and being alike means only to come to the same (`Ways.alike_everywhere_iff`).  The parts
of a pass keep to the regions that they keep to next to others.

**The whole effect of normalisation** is said here of every way (`Target.run_normalises`).  Where a
file has a second name it may be another one, since what is written through one name is read through
the other, also outside the root (`shared_file_changes_outside`).
-/

namespace DualModule

open Attempt

variable {ε α : Type} {host : Host} {tolerance : Tolerance} {own : Set Location}
variable {t u : FileTree} {r : Location} {root : Path} {rules : List RenameRule}

/-! ### Everything as a region -/

theorem Request.confined_everywhere (host : Host) (t : FileTree) (r : Request) :
    r.Confined host .any Set.univ t := by
  have hsame : ∀ u, t.Seen .any Set.univ u → u = t :=
    fun u hu => FileTree.ext_view fun l => hu.inside l (Set.mem_univ l)
  constructor
  · intro u hu
    rw [hsame u hu]
  · intro u hu l _
    rw [hsame u hu]
  · exact fun u _ l hl => absurd (Set.mem_univ l) hl
  · exact fun l _ => trivial

theorem Procedure.confined_everywhere (p : Procedure α) (t : FileTree) :
    p.Confined host .any Set.univ t := by
  induction p generalizing t with
  | done a => exact confined_done a t
  | ask r next ih => exact ⟨r.confined_everywhere host t, ih _ _⟩

/-- **With nobody else there**, all that counts is what the ways come to. -/
theorem Ways.alike_everywhere_iff {w : Ways α} {p : Procedure α} :
    w.Alike host .any Set.univ t p ↔ ∀ q ∈ w, q.run host t = p.run host t :=
  forall₂_congr fun q _ => and_iff_right (q.confined_everywhere t)

namespace AttemptWays

variable {w : AttemptWays ε α} {a : Attempt ε α}

theorem Alike.everywhere (h : w.Alike host tolerance own t a) :
    w.Alike host .any Set.univ t a :=
  Ways.alike_everywhere_iff.2 fun q hq => (h q hq).2

theorem alike_only_everywhere (a : Attempt ε α) (t : FileTree) :
    (only a).Alike host .any Set.univ t a :=
  alike_only (Procedure.confined_everywhere _ t)

end AttemptWays

/-! ### Walks and passes -/

section Passes

variable (hhere : t.get? host.here = some .directory)
include hhere

/-- Wherever the root leads, it does not show in which order directories are listed. -/
theorem filesBelowWays_everywhere :
    (filesBelowWays root).Alike host .any Set.univ t (filesBelow root) := by
  refine AttemptWays.Alike.bind ?_ fun _ _ => AttemptWays.alike_pure _
  by_cases hdir : ∃ r, t.canonical host.here root = .ok (Location.path r) ∧
      t.get? r = some .directory
  · obtain ⟨r, hroot, hr⟩ := hdir
    have halike : (walkWays root).Alike host (.ends ∅) r.inside t (walk root) :=
      walkWays_alike hroot hr
    exact halike.everywhere
  · let ask : Attempt PassError Path := explained (.request (.canonicalize root)) (.traversal root)
    have hask : (AttemptWays.only ask).Alike host .any Set.univ t ask :=
      AttemptWays.alike_only_everywhere ask t
    obtain ⟨cause, hroot⟩ | ⟨l, content, executable, hroot, hfile⟩ :=
      FileTree.canonical_cases hhere fun r hroot hr => hdir ⟨r, hroot, hr⟩
    · exact hask.bind_error (outcome_canonicalize hroot)
    · refine hask.bind_ok (outcome_canonicalize hroot) ?_
      exact (AttemptWays.alike_only_everywhere _ t).bind_error (outcome_list_file hfile)

theorem renameBelowWays_everywhere :
    (renameBelowWays root rules).Alike host .any Set.univ t (renameBelow root rules) :=
  (filesBelowWays_everywhere hhere).bind fun _ u => AttemptWays.alike_only_everywhere _ u

/-- Files with one name each are edited alike in all orders. -/
theorem editImportsWays_everywhere (plan : List Mapping)
    (hsingle : ∀ r, t.canonical host.here root = .ok (Location.path r) → t.Single r) :
    (editImportsWays root plan).Alike host .any Set.univ t (editImports root plan) := by
  by_cases hdir : ∃ r, t.canonical host.here root = .ok (Location.path r) ∧
      t.get? r = some .directory
  · obtain ⟨r, hroot, hr⟩ := hdir
    have halike : (editImportsWays root plan).Alike host (.ends ∅) r.inside t
        (editImports root plan) := editImportsWays_alike hroot hr (hsingle r hroot)
    exact halike.everywhere
  · obtain ⟨p, cause, hfiles⟩ :=
      filesBelow_outcome_error hhere fun r hroot hr => hdir ⟨r, hroot, hr⟩
    exact (filesBelowWays_everywhere hhere).bind_error hfiles

end Passes

/-! ### Targets -/

namespace Target

variable {target : Target} {report : Report} {p : Procedure Report}

/-- The two passes, if each of them is alike. -/
theorem normalizeWays_alike
    (hrename : (renameBelowWays target.out rules).Alike host tolerance own t
      (renameBelow target.out rules))
    (hedit : ∀ plan u, (renameBelow target.out rules).outcome host t = (.ok plan, u) →
      (editImportsWays target.out plan).Alike host tolerance own u
        (editImports target.out plan)) :
    (target.normalizeWays rules report).Alike host tolerance own t
      (target.normalize rules report) := by
  unfold normalizeWays normalize
  refine Ways.Alike.bind hrename ?_
  rcases hrun : (renameBelow target.out rules).outcome host t with ⟨result, u⟩
  have hresult : (renameBelow target.out rules).run.run host t = (result, u) := hrun
  rw [hresult]
  cases result with
  | error e => exact Ways.alike_only (Procedure.confined_done _ _)
  | ok plan =>
      refine Ways.Alike.bind (hedit plan u hrun) ?_
      generalize ((editImports target.out plan).run.run host u).1 = result
      cases result <;> exact Ways.alike_only (Procedure.confined_done _ _)

/-- Without post-processing there is one way, which asks for nothing. -/
theorem ways_eq_of_none (hpost : target.postProcess = none) :
    target.ways = .only (target.run none) := by
  unfold ways waysWith finishWays run finish
  rw [hpost]
  rfl

/-- With post-processing, the ways are those of the two passes. -/
theorem ways_eq_of_some {process : PostProcess} (hpost : target.postProcess = some process) :
    target.ways = target.normalizeWays process.rules (.start target) := by
  unfold ways waysWith finishWays
  rw [hpost]

theorem run_eq_of_some {process : PostProcess} (hpost : target.postProcess = some process) :
    target.run none = target.normalize process.rules (.start target) := by
  unfold run finish
  rw [hpost]

/-- The renames leave the directories as they were, and every file with one name, so that it does
not matter in which order files are edited then. -/
theorem editImportsWays_alike_of_renamed (hhere : t.get? host.here = some .directory)
    (hsingle : ∀ r, t.canonical host.here root = .ok (Location.path r) → t.Single r)
    {plan : List Mapping}
    (hrename : (renameBelow root RenameRule.dualModule).outcome host t = (.ok plan, u)) :
    (editImportsWays root plan).Alike host .any Set.univ u (editImports root plan) := by
  obtain ⟨r, hroot, hr, -, hrenamed⟩ := renamed_of_renameBelow hhere (by decide) hrename
  have hroot' := hrenamed.sameWays.canonical_eq hr hroot
  have hsingle' := (hrenamed.sameNames (hsingle r hroot)).single_iff.2 (hsingle r hroot)
  exact editImportsWays_everywhere ((hrenamed.sameWays.directory _).1 hhere) plan
    fun _ => FileTree.single_of_canonical hroot' hsingle'

/-- **All ways to run a target come to the same**, if no file of it has a second name. -/
theorem run_eq_of_mem_ways (hhere : t.get? host.here = some .directory)
    (hsingle : ∀ r, t.canonical host.here target.out = .ok (Location.path r) → t.Single r)
    (hp : p ∈ target.ways) : p.run host t = (target.run none).run host t := by
  cases hpost : target.postProcess with
  | none =>
      rw [ways_eq_of_none hpost] at hp
      rw [show p = target.run none from hp]
  | some process =>
      cases process
      rw [ways_eq_of_some hpost] at hp
      rw [run_eq_of_some hpost]
      exact Ways.alike_everywhere_iff.1 (normalizeWays_alike (renameBelowWays_everywhere hhere)
        fun _ _ => editImportsWays_alike_of_renamed hhere hsingle) p hp

/-- The report of a target that has got done without a generator. -/
def doneReport (target : Target) (renamed : Nat) (summary : EditSummary) : Report :=
  ⟨target.name, target.out, [.done, .edited, .renamed], none, true, renamed, some summary, none⟩

/-- **A way to run a target** is the rename pass, and then some way to edit that depends on the
plan. -/
theorem exists_edits_of_mem_ways (hhere : t.get? host.here = some .directory)
    (hpost : target.postProcess = some .dualModule) (hp : p ∈ target.ways) :
    ∃ edits : List Mapping → Procedure (Except PassError EditSummary),
      (∀ plan, edits plan ∈ (editImportsWays target.out plan).run) ∧
      p.run host t =
        match (renameBelow target.out RenameRule.dualModule).outcome host t with
        | (.error e, u) => ((Report.start target).fail (.pass e), u)
        | (.ok plan, u) =>
          match (edits plan).run host u with
          | (.error e, v) =>
            (({ Report.start target with renamed := plan.length }.advance .renamed).fail (.pass e), v)
          | (.ok summary, v) => (target.doneReport plan.length summary, v) := by
  rw [ways_eq_of_some hpost] at hp
  obtain ⟨q, hq, next, hnext, rfl⟩ := hp
  have hrename : q.run host t = (renameBelow target.out RenameRule.dualModule).outcome host t :=
    Ways.alike_everywhere_iff.1 (renameBelowWays_everywhere hhere) q hq
  choose edits hedits finish hfinish hedit using fun plan => hnext (.ok plan)
  refine ⟨edits, hedits, ?_⟩
  rw [Procedure.run_bind, hrename]
  rcases (renameBelow target.out RenameRule.dualModule).outcome host t with ⟨result, u⟩
  cases result with
  | error e =>
      have hfailed : next (.error e) = pure ((Report.start target).fail (.pass e)) :=
        hnext (.error e)
      simp only [hfailed, Procedure.run_pure]
  | ok plan =>
      simp only [hedit, Procedure.run_bind]
      rcases (edits plan).run host u with ⟨result, v⟩
      have hlast := hfinish plan result
      cases result <;> exact congrArg (fun last => last.run host v) hlast

/-- A target that gets done has gone through both passes. -/
theorem exists_passes_of_done (hhere : t.get? host.here = some .directory)
    (hpost : target.postProcess = some .dualModule) (hp : p ∈ target.ways)
    (hdone : (p.run host t).1.stage = .done) :
    ∃ plan u summary v,
      (renameBelow target.out RenameRule.dualModule).outcome host t = (.ok plan, u) ∧
      (∃ q ∈ (editImportsWays target.out plan).run, q.run host u = (.ok summary, v)) ∧
      p.run host t = (target.doneReport plan.length summary, v) := by
  obtain ⟨edits, hedits, hrun⟩ := exists_edits_of_mem_ways hhere hpost hp
  rcases hrename : (renameBelow target.out RenameRule.dualModule).outcome host t with ⟨result, u⟩
  rw [hrename] at hrun
  cases result with
  | error e =>
      rw [hrun] at hdone
      cases hdone
  | ok plan =>
      rcases hedit : (edits plan).run host u with ⟨result, v⟩
      simp only [hedit] at hrun
      cases result with
      | error e =>
          rw [hrun] at hdone
          cases hdone
      | ok summary => exact ⟨plan, u, summary, v, rfl, ⟨edits plan, hedits plan, hedit⟩, hrun⟩

/-- **A target without second names that gets done** has carried out the plan for its files, and
then edited them. -/
theorem exists_edited_of_done (hhere : t.get? host.here = some .directory)
    (hpost : target.postProcess = some .dualModule)
    (hsingle : ∀ r, t.canonical host.here target.out = .ok (Location.path r) → t.Single r)
    (hp : p ∈ target.ways) (hdone : (p.run host t).1.stage = .done) :
    ∃ r, t.canonical host.here target.out = .ok (Location.path r) ∧ t.Single r ∧
      let plan := RenamePlan.of (t.filesUnder r) RenameRule.dualModule
      ∃ u v, (renameBelow target.out RenameRule.dualModule).outcome host t = (.ok plan, u) ∧
        t.Renamed r plan u ∧ u.Edited plan (u.filesUnder r) v ∧
        p.run host t = (target.doneReport plan.length (u.editSummary plan r), v) := by
  obtain ⟨plan, u, summary, v, hrename, ⟨q, hq, hedit⟩, hrun⟩ :=
    exists_passes_of_done hhere hpost hp hdone
  obtain ⟨r, hroot, hr, hplan, hrenamed⟩ := renamed_of_renameBelow hhere (by decide) hrename
  -- the second walk starts where the first one did
  have hroot' := hrenamed.sameWays.canonical_eq hr hroot
  have hsingle' := (hrenamed.sameNames (hsingle r hroot)).single_iff.2 (hsingle r hroot)
  obtain ⟨w, hw, hedited⟩ :=
    editImports_summary plan hroot' ((hrenamed.sameWays.directory r).1 hr) hsingle'
  have halike := editImportsWays_alike_of_renamed hhere hsingle hrename
  have hsame := (hedit.symm.trans (Ways.alike_everywhere_iff.1 halike q hq)).trans hw
  obtain ⟨hsummary, rfl⟩ := Prod.mk.inj hsame
  obtain rfl := Except.ok.inj hsummary
  subst hplan
  exact ⟨r, hroot, hsingle r hroot, u, v, hrename, hrenamed, hedited, hrun⟩

/-- **The whole effect of normalisation.**  If a target without a generator gets done, in whichever
way it is run, and no file below its root has a second name, then the tree below the root has been
normalised by the plan for the files that were there, nothing else has changed, and the report has
the length of the plan. -/
theorem run_normalises (hhere : t.get? host.here = some .directory)
    (hpost : target.postProcess = some .dualModule)
    (hsingle : ∀ r, t.canonical host.here target.out = .ok (Location.path r) → t.Single r)
    (hp : p ∈ target.ways) (hdone : (p.run host t).1.stage = .done) :
    ∃ r, t.canonical host.here target.out = .ok (Location.path r) ∧
      let plan := RenamePlan.of (t.filesUnder r) RenameRule.dualModule
      t.Normalised r plan (p.run host t).2 ∧ (p.run host t).1.renamed = plan.length := by
  obtain ⟨r, hroot, hr, u, v, -, hrenamed, hedited, hrun⟩ :=
    exists_edited_of_done hhere hpost hsingle hp hdone
  rw [hrun]
  exact ⟨r, hroot, hrenamed.normalised hr hedited, rfl⟩

end Target

/-- Of the files of the small tree, one is renamed, and its importer is edited. -/
theorem smallTree_normalised :
    let target : Target := ⟨"t".toList, .ofText "/t".toList, [], some .dualModule⟩
    let run := (target.run none).run .plain smallTree
    smallTree.get? Host.plain.here = some .directory ∧
      target.postProcess = some .dualModule ∧
      (∀ r, smallTree.canonical Host.plain.here target.out = .ok (Location.path r) →
        smallTree.Single r) ∧
      target.run none ∈ target.ways ∧ run.1.stage = .done ∧
      run.2.get? (Path.ofText "/t/d/b.js".toList).location =
        some (.file (Utf8.encode "import '../a_pb.cjs';".toList) false) ∧
      ∃ r, smallTree.canonical Host.plain.here target.out = .ok (Location.path r) ∧
        let plan := RenamePlan.of (smallTree.filesUnder r) RenameRule.dualModule
        smallTree.Normalised r plan run.2 ∧ run.1.renamed = plan.length := by
  intro target
  have hsingle : ∀ r, smallTree.canonical Host.plain.here target.out = .ok (Location.path r) →
      smallTree.Single r := by
    intro r hr
    have hroot : smallTree.canonical Host.plain.here target.out =
        .ok (Path.ofText "/t".toList).location.path := by decide +kernel
    exact FileTree.single_of_canonical hroot (by decide +kernel) hr
  have hdone : ((target.run none).run .plain smallTree).1.stage = .done := by decide +kernel
  exact ⟨by decide +kernel, rfl, hsingle, target.run_mem_ways, hdone, by decide +kernel,
    Target.run_normalises (by decide +kernel) rfl hsingle target.run_mem_ways hdone⟩

/-- A module and its importer, which also has a name outside of their directory. -/
def sharedTree : FileTree :=
  let tree := FileTree.ofEntries [("/t/m_pb.js", .file [] false),
    ("/t/a.js", .file (Utf8.encode "import './m_pb.js';".toList) false),
    ("/o/b.js", .file (Utf8.encode "import './m_pb.js';".toList) false)]
  tree.identify (Path.ofText "/t/a.js".toList).location (Path.ofText "/o/b.js".toList).location

/-- **A file with a second name outside the root** changes there as well when it is normalised. -/
theorem shared_file_changes_outside :
    let target : Target := ⟨"t".toList, .ofText "/t".toList, [], some .dualModule⟩
    let outside := (Path.ofText "/o/b.js".toList).location
    let run := (target.run none).run .plain sharedTree
    sharedTree.canonical Host.plain.here target.out = .ok target.out.location.path ∧
      ¬ Location.Below target.out.location outside ∧ run.1.stage = .done ∧
      sharedTree.get? outside = some (.file (Utf8.encode "import './m_pb.js';".toList) false) ∧
      run.2.get? outside = some (.file (Utf8.encode "import './m_pb.cjs';".toList) false) :=
  ⟨by decide +kernel, by decide +kernel, by decide +kernel, by decide +kernel,
    by decide +kernel⟩

end DualModule
