import DualModule.Procedure.Interleaving
import DualModule.Procedure.Responder
import DualModule.Proofs.AnyWay
/-!
# Targets next to each other

Targets without a generator may be run at the same time.  If their output directories are apart from
each other and have no links below them, and no file there has a second name, each target ends as it
ends alone, with the same report and the same files, however their requests are interleaved
(`Target.interleaved_alone`).  A target that fails is no exception, and running the targets one after
another, in any order, comes to the same.

**Within a target**, requests may be under way together as well.  What a target comes to alone does
not depend on the way in which it is run, so that it may be any of `Target.ways`.

**Targets without a directory.**  A target may also lead nowhere, and then its report says why.  For
that report to be the same, the target has to lead nowhere for the same reason whatever the others
have renamed so far (`Target.LeadsNowhere`).

**None of the conditions can be left out** (`isolation_limits`).  A target that leads nowhere in the
beginning may be led somewhere by a rename of another target.  A file with a name in two directories
is edited for both.  And all this is about hosts, which refuse only what their trees make impossible:
where a file cannot be written, what has become of the others by then depends on the order.

## Main Definitions

* `Target.Occupies`, `Target.region`
* `Target.plan`, `Target.renamePlaces`
* `Target.LeadsNowhere`, `Target.Separate`
* `Target.AsAlone`, `Target.Disturbed`
* `Host.guarding`
-/

namespace DualModule

open Attempt

variable {host : Host} {t u v : FileTree} {n : FileName} {d l r s : Location}
variable {places : Set Location}

namespace Target

variable {target : Target} {targets : List Target}

/-- The target's output path leads to the directory at `r`, which has no links below it and no files
with a second name. -/
structure Occupies (host : Host) (t : FileTree) (target : Target) (r : Location) : Prop extends
    t.LinkFree r where
  canonical_eq : t.canonical host.here target.out = .ok r.path
  single : t.Single r

theorem Occupies.unique (h : target.Occupies host t r) (h' : target.Occupies host t s) : r = s :=
  Location.path_injective (Except.ok.inj (h.canonical_eq.symm.trans h'.canonical_eq))

/-- What belongs to a target. -/
def region (host : Host) (t : FileTree) (target : Target) : Set Location :=
  {l | ∃ r, target.Occupies host t r ∧ l ∈ r.inside}

theorem Occupies.region_eq (h : target.Occupies host t r) : target.region host t = r.inside := by
  ext l
  constructor
  · rintro ⟨s, hs, hl⟩
    rwa [h.unique hs]
  · intro hl
    exact ⟨r, h, hl⟩

/-- What a target is going to rename in the directory at `r`. -/
def plan (t : FileTree) (target : Target) (r : Location) : List Mapping :=
  match target.postProcess with
  | none => []
  | some p => RenamePlan.of (t.filesUnder r) p.rules

/-- The places where renames make files appear and disappear: the old and the new ones. -/
def renamePlaces (host : Host) (t : FileTree) (targets : List Target) : Set Location :=
  {l | ∃ target ∈ targets, ∃ r, target.Occupies host t r ∧
    ∃ m ∈ target.plan t r, l = m.old.location ∨ l = m.new.location}

/-- The target's output path leads nowhere, and it does so for the same reason whatever files there
are at some places, and whatever bytes files hold. -/
def LeadsNowhere (host : Host) (t : FileTree) (places : Set Location) (target : Target) : Prop :=
  ∃ cause, ∀ u : FileTree, (∀ l, (Tolerance.ends places).Allows l (t.get? l) (u.get? l)) →
    u.canonical host.here target.out = .error cause

/-- Each target occupies a directory or leads nowhere, and none of the directories is another one
or inside another one. -/
structure Separate (host : Host) (t : FileTree) (targets : List Target) : Prop where
  somewhere_or_nowhere : ∀ target ∈ targets, (∃ r, target.Occupies host t r) ∨
    target.LeadsNowhere host t (renamePlaces host t targets)
  apart : targets.Pairwise fun a b => ∀ r s, a.Occupies host t r → b.Occupies host t s →
    ¬ r <:+ s ∧ ¬ s <:+ r

/-- A target that leads nowhere occupies nothing. -/
theorem LeadsNowhere.not_occupies (h : target.LeadsNowhere host t places) :
    ¬ target.Occupies host t r := by
  obtain ⟨cause, hcause⟩ := h
  intro hr
  cases hr.canonical_eq.symm.trans (hcause t fun l => (Tolerance.ends places).refl l _)

theorem LeadsNowhere.region_eq (h : target.LeadsNowhere host t places) :
    target.region host t = ∅ := by
  ext l
  refine iff_of_false ?_ (Set.notMem_empty l)
  rintro ⟨r, hr, -⟩
  exact h.not_occupies hr

/-- Renames are made inside the directories of the targets. -/
theorem exists_inside_of_mem_renamePlaces (h : l ∈ renamePlaces host t targets) :
    ∃ target ∈ targets, ∃ r, target.Occupies host t r ∧ l ∈ r.inside := by
  obtain ⟨target, htarget, r, hr, m, hm, hl⟩ := h
  refine ⟨target, htarget, r, hr, ?_⟩
  unfold plan at hm
  split at hm
  · cases hm
  · rename_i p hpost
    cases p
    obtain ⟨d, o, n, hold, hnew, hinside, -⟩ := RenamePlan.exists_names_of_mem hm
    rw [hold, hnew, Location.location_path, Location.location_path] at hl
    rcases hl with rfl | rfl
    · exact hinside
    · exact Location.Below.sibling hinside

/-- **A name that a directory lacks** leads nowhere, if no rename makes it. -/
theorem LeadsNowhere.of_missing (hout : target.out = Location.path (n :: d))
    (hd : t.get? d = some .directory) (hfree : t.get? (n :: d) = none)
    (haddressable : Location.Addressable (n :: d)) (hplace : n :: d ∉ places) :
    target.LeadsNowhere host t places := by
  refine ⟨.noEntry, fun u hu => ?_⟩
  have hseen : t.Seen (.ends places) ∅ u := ⟨fun l hl => hl.elim, fun l _ => hu l⟩
  have hd' := (hseen.sameWays.directory d).1 hd
  have hfree' : u.get? (n :: d) = none := by
    rcases hu (n :: d) with heq | ⟨-, -, hsome | hmem⟩
    · exact heq.symm.trans hfree
    · rw [hfree] at hsome
      exact Option.isNone_iff_eq_none.1 (by simpa using hsome.symm)
    · exact absurd hmem hplace
  have hspot : u.spot host.here (Location.path (n :: d)) true = .ok (.vacant d n) := by
    rw [FileTree.spot_path_cons hd' haddressable.length_name, hfree']
  rw [hout, FileTree.canonical, if_neg (Location.notMem_path haddressable.1),
    if_neg (Location.path_bytes_ne_nil _), hspot]
  rfl

/-! ### The runs -/

section Runs

/-- A target that leads nowhere asks where it leads, and that is all. -/
theorem LeadsNowhere.ways_alike (h : target.LeadsNowhere host t places) :
    target.ways.Alike host (.ends places) ∅ t (target.run none) := by
  obtain ⟨cause, hcause⟩ := h
  have hcanonical : t.canonical host.here target.out = .error cause :=
    hcause t fun l => (Tolerance.ends places).refl l _
  have hconfined : (Procedure.request (.canonicalize target.out)).Confined host (.ends places)
      ∅ t := by
    refine Procedure.confined_request (.of_unchanged (fun _ => rfl) fun u hu => ?_)
    show u.canonical host.here target.out = t.canonical host.here target.out
    rw [hcanonical, hcause u fun l => hu.outside l (Set.notMem_empty l)]
  have hask : (Procedure.request (.canonicalize target.out)).run host t = (.error cause, t) := by
    rw [run_request, Request.answer, hcanonical]
  have hfiles : (filesBelow target.out).outcome host t = (.error (.traversal target.out cause), t) := by
    unfold filesBelow walk
    rw [bind_assoc]
    exact outcome_bind_error (outcome_explained hask _) _
  have hfilesAlike : (filesBelowWays target.out).Alike host (.ends places) ∅ t
      (filesBelow target.out) := by
    refine AttemptWays.Alike.bind ?_ fun _ _ => AttemptWays.alike_pure _
    exact (AttemptWays.alike_only (confined_explained hconfined _)).bind_error
      (outcome_explained hask _)
  cases hpost : target.postProcess with
  | none =>
      rw [ways_eq_of_none hpost, run, finish, hpost]
      exact Ways.alike_only (Procedure.confined_done _ _)
  | some p =>
      rw [ways_eq_of_some hpost, run_eq_of_some hpost]
      refine normalizeWays_alike (hfilesAlike.bind_error hfiles) fun plan u hrun => ?_
      rw [renameBelow, outcome_bind_error hfiles] at hrun
      cases hrun

/-- **A target that occupies a directory** keeps to what is below it. -/
theorem Occupies.ways_alike (h : target.Occupies host t r)
    (hplaces : ∀ m ∈ target.plan t r, m.old.location ∈ places ∧ m.new.location ∈ places) :
    target.ways.Alike host (.ends places) r.inside t (target.run none) := by
  unfold plan at hplaces
  cases hpost : target.postProcess with
  | none =>
      rw [ways_eq_of_none hpost, run, finish, hpost]
      exact Ways.alike_only (Procedure.confined_done _ _)
  | some p =>
      cases p
      rw [hpost] at hplaces
      rw [ways_eq_of_some hpost, run_eq_of_some hpost]
      refine normalizeWays_alike
        (renameBelowWays_alike h.canonical_eq h.toLinkFree h.single hplaces) ?_
      intro plan u hrun
      -- the renames have left directories and links as they were, and every file with one name
      obtain ⟨-, hrenamed⟩ := renamed_of_directory (by decide) h.canonical_eq h.directory hrun
      exact editImportsWays_alike (hrenamed.sameWays.canonical_eq h.directory h.canonical_eq)
        ((hrenamed.sameWays.directory r).1 h.directory)
        ((hrenamed.sameNames h.single).single_iff.2 h.single)

end Runs

/-! ### Side by side -/

namespace Separate

theorem regions_disjoint (h : Separate host t targets) :
    targets.Pairwise fun a b => Disjoint (a.region host t) (b.region host t) := by
  refine h.apart.imp fun {a b} hab => Set.disjoint_left.2 ?_
  rintro l ⟨r, hr, hlr⟩ ⟨s, hs, hls⟩
  obtain ⟨hrs, hsr⟩ := hab r s hr hs
  exact (List.suffix_or_suffix_of_suffix hlr.1 hls.1).elim hrs hsr

theorem ways_alike (h : Separate host t targets) (htarget : target ∈ targets) :
    target.ways.Alike host (.ends (renamePlaces host t targets)) (target.region host t) t
      (target.run none) := by
  rcases h.somewhere_or_nowhere target htarget with ⟨r, hr⟩ | hnowhere
  · rw [hr.region_eq]
    refine hr.ways_alike fun m hm => ⟨?_, ?_⟩
    · exact ⟨target, htarget, r, hr, m, hm, Or.inl rfl⟩
    · exact ⟨target, htarget, r, hr, m, hm, Or.inr rfl⟩
  · rw [hnowhere.region_eq]
    exact hnowhere.ways_alike

/-- **However the requests are interleaved**, each target ends as it ends alone. -/
theorem separately (h : Separate host t targets) {runs : List (Procedure Report)}
    {reports : List Report} (hruns : List.Forall₂ (fun p target => p ∈ target.ways) runs targets)
    (hrun : Procedure.Interleaved host runs t reports v) :
    Procedure.Separately t
      (targets.map fun target => (target.region host t, (target.run none).run host t))
      reports v :=
  Ways.interleaved h.regions_disjoint (fun _ htarget => h.ways_alike htarget) hruns hrun

theorem perm {order : List Target} (h : Separate host t targets) (hperm : targets.Perm order) :
    Separate host t order := by
  have hplaces : renamePlaces host t order = renamePlaces host t targets := by
    ext l
    simp only [renamePlaces, hperm.mem_iff]
  constructor
  · intro target htarget
    rw [hplaces]
    exact h.somewhere_or_nowhere target (hperm.mem_iff.2 htarget)
  · refine hperm.pairwise h.apart fun hab r s hr hs => ?_
    exact (hab s r hs hr).symm

end Separate

/-- One request after another is a way to run each target. -/
theorem forall₂_run_mem_ways (targets : List Target) :
    List.Forall₂ (fun p target => p ∈ target.ways) (targets.map (·.run none)) targets := by
  rw [List.forall₂_map_left_iff, List.forall₂_same]
  exact fun target _ => target.run_mem_ways

/-- Each target has come to what it comes to alone. -/
structure AsAlone (host : Host) (t : FileTree) (targets : List Target) (reports : List Report)
    (v : FileTree) : Prop where
  /-- alone, a target comes to the same in all ways -/
  any_way : ∀ target ∈ targets, ∀ p ∈ target.ways, p.run host t = (target.run none).run host t
  /-- the reports are those of the targets alone, in the order of the targets -/
  reports_eq : reports = targets.map fun target => ((target.run none).run host t).1
  /-- the tree is the one that is left if the targets are run one after another, in any order -/
  one_after_another : ∀ order, order.Perm targets → (runAll order none).run host t =
    (order.map fun target => ((target.run none).run host t).1, v)
  /-- below its directory, each target has left what it leaves alone -/
  inside : ∀ target ∈ targets, ∀ r, target.Occupies host t r → ∀ l ∈ r.inside,
    v.view l = ((target.run none).run host t).2.view l
  /-- and nothing else has changed -/
  elsewhere : ∀ l, (∀ target ∈ targets, ∀ r, target.Occupies host t r → l ∉ r.inside) →
    v.view l = t.view l

/-- **Targets that are separate do not affect each other**, in whichever ways they are run, however
their requests are interleaved, and whether they fail or not. -/
theorem interleaved_alone (h : Separate host t targets) {runs : List (Procedure Report)}
    {reports : List Report} (hruns : List.Forall₂ (fun p target => p ∈ target.ways) runs targets)
    (hrun : Procedure.Interleaved host runs t reports v) :
    AsAlone host t targets reports v := by
  have hv := h.separately hruns hrun
  constructor
  · exact fun target htarget p hp => (h.ways_alike htarget p hp).2
  · rw [hv.results_eq, List.map_map]
    rfl
  · intro order hperm
    have horder := (h.perm hperm.symm).separately (forall₂_run_mem_ways order)
      (Procedure.interleaved_mapM (fun target : Target => target.run none) order t)
    unfold runAll
    refine Prod.ext ?_ (horder.tree_unique hv (hperm.map _))
    rw [horder.results_eq, List.map_map]
    rfl
  · intro target htarget r hr l hl
    refine hv.inside _ (List.mem_map_of_mem htarget) l ?_
    rw [hr.region_eq]
    exact hl
  · intro l hl
    refine hv.elsewhere l fun e he hle => ?_
    obtain ⟨target, htarget, rfl⟩ := List.mem_map.1 he
    obtain ⟨r, hr, hlr⟩ := hle
    exact hl target htarget r hr hlr

end Target

/-- Two directories of modules, one with a file in the way of a rename. -/
def siblingTree : FileTree :=
  .ofEntries [("/a/x_pb.js", .file [] false),
    ("/a/y.js", .file (Utf8.encode "import './x_pb.js';".toList) false),
    ("/b/x_pb.js", .file [] false), ("/b/x_pb.cjs", .file [] false)]

/-- A target that gets done, one that fails, and one that leads nowhere. -/
theorem siblings_alone :
    let target (out : String) : Target := ⟨out.toList, .ofText out.toList, [], some .dualModule⟩
    let targets := [target "/a", target "/b", target "/c"]
    Target.Separate .plain siblingTree targets ∧
      ∃ runs reports v,
        List.Forall₂ (fun p target => p ∈ Target.ways target) runs targets ∧
        Procedure.Interleaved .plain runs siblingTree reports v ∧
        reports.map (·.stage) = [.done, .failed, .failed] ∧
        Target.AsAlone .plain siblingTree targets reports v := by
  intro target targets
  let a := (target "/a").out.location
  let b := (target "/b").out.location
  let c : FileName := ⟨Utf8.encode "c".toList, by decide +kernel⟩
  have ha : (target "/a").Occupies .plain siblingTree a :=
    ⟨by decide +kernel, by decide +kernel, by decide +kernel⟩
  have hb : (target "/b").Occupies .plain siblingTree b :=
    ⟨by decide +kernel, by decide +kernel, by decide +kernel⟩
  have hvacant : ∀ r, ¬ (target "/c").Occupies .plain siblingTree r := by
    intro r hr
    have hnone : siblingTree.canonical Host.plain.here (target "/c").out = .error .noEntry := by
      decide +kernel
    cases hr.canonical_eq.symm.trans hnone
  have hplace : [c] ∉ Target.renamePlaces .plain siblingTree targets := by
    intro hmem
    obtain ⟨x, hx, r, hr, hinside⟩ := Target.exists_inside_of_mem_renamePlaces hmem
    simp only [targets, List.mem_cons, List.not_mem_nil, or_false] at hx
    rcases hx with rfl | rfl | rfl
    · rw [hr.unique ha] at hinside
      exact absurd hinside.1 (by decide +kernel)
    · rw [hr.unique hb] at hinside
      exact absurd hinside.1 (by decide +kernel)
    · exact hvacant r hr
  have hc : (target "/c").LeadsNowhere .plain siblingTree
      (Target.renamePlaces .plain siblingTree targets) :=
    .of_missing (n := c) (d := []) (by decide +kernel) (by decide +kernel) (by decide +kernel)
      (by decide +kernel) hplace
  have hseparate : Target.Separate .plain siblingTree targets := by
    constructor
    · simp only [targets, List.forall_mem_cons]
      exact ⟨Or.inl ⟨a, ha⟩, Or.inl ⟨b, hb⟩, Or.inr hc, List.forall_mem_nil _⟩
    · simp only [targets, List.pairwise_cons, List.forall_mem_cons]
      refine ⟨⟨?_, ?_, List.forall_mem_nil _⟩, ⟨?_, List.forall_mem_nil _⟩, List.forall_mem_nil _,
        List.Pairwise.nil⟩
      · intro r s hr hs
        rw [hr.unique ha, hs.unique hb]
        decide +kernel
      · exact fun r s _ hs => absurd hs (hvacant s)
      · exact fun r s _ hs => absurd hs (hvacant s)
  have hrun : Procedure.Interleaved .plain (targets.map (·.run none)) siblingTree _ _ :=
    Procedure.interleaved_mapM (fun target : Target => target.run none) targets siblingTree
  have hruns := Target.forall₂_run_mem_ways targets
  exact ⟨hseparate, _, _, _, hruns, hrun, by decide +kernel,
    Target.interleaved_alone hseparate hruns hrun⟩

/-! ### Why the conditions are there -/

/-- Next to each other, the targets do not come to what they come to alone. -/
def Target.Disturbed (host : Host) (t : FileTree) (targets : List Target) : Prop :=
  ∃ reports v, Procedure.Interleaved host (targets.map (·.run none)) t reports v ∧
    reports ≠ targets.map fun target => ((target.run none).run host t).1

/-- Running targets one after another is enough to disturb them. -/
theorem Target.disturbed_of_runAll {host : Host} {t : FileTree} {targets : List Target}
    (h : ((runAll targets none).run host t).1 ≠
      targets.map fun target => ((target.run none).run host t).1) :
    Disturbed host t targets :=
  ⟨_, _, Procedure.interleaved_mapM (fun target : Target => target.run none) targets t, h⟩

/-- A host on which one file cannot be written. -/
def Host.guarding (host : Host) (file : Path) : Responder FileTree
  | t, .write p content =>
    if p = file then (.error .accessDenied, t) else (Request.write p content).answer host t
  | t, r => r.answer host t

/-- The import pass with the last file first. -/
def editImportsBackwards (root : Path) (mappings : List Mapping) :
    Attempt PassError EditSummary := do
  let outcomes ← (← filesBelow root).reverse.mapM (editFile mappings)
  return .ofOutcomes outcomes.reverse

theorem editImportsBackwards_has (root : Path) (mappings : List Mapping) :
    (editImportsWays root mappings).Has (editImportsBackwards root mappings) := by
  unfold editImportsWays editImportsBackwards
  refine (filesBelowWays_has root).bind fun files => ?_
  have hreverse : (AttemptWays.together (files.map fun f => .only (editFile mappings f))).Has
      (do return (← files.reverse.mapM (editFile mappings)).reverse) :=
    AttemptWays.has_mapM_reverse fun f _ => AttemptWays.has_only (editFile mappings f)
  simpa only [bind_assoc, pure_bind] using
    hreverse.bind fun outcomes => AttemptWays.has_pure (EditSummary.ofOutcomes outcomes)

/-- A way to run a target: the last file is edited first. -/
def Target.backwards (t : Target) : Procedure Report := do
  match ← (renameBelow t.out RenameRule.dualModule).run with
  | .error e => return (Report.start t).fail (.pass e)
  | .ok mappings =>
    let report := { Report.start t with renamed := mappings.length }.advance .renamed
    match ← (editImportsBackwards t.out mappings).run with
    | .error e => return report.fail (.pass e)
    | .ok summary =>
      let report := { report with edits := some summary, postProcessed := true }.advance .edited
      return report.advance .done

theorem Target.backwards_mem_ways {target : Target}
    (hpost : target.postProcess = some .dualModule) : target.backwards ∈ target.ways := by
  rw [ways_eq_of_some hpost]
  refine Ways.mem_bind (renameBelowWays_has _ _) fun result => ?_
  cases result with
  | error e => rfl
  | ok mappings =>
      refine Ways.mem_bind (editImportsBackwards_has _ _) fun result => ?_
      cases result <;> rfl

/-- Two directories with a module each, and with one importer that has a name in both. -/
def twinTree : FileTree :=
  let importer := Utf8.encode "import './x_pb.js';".toList
  let tree := FileTree.ofEntries [("/a/x_pb.js", .file [] false), ("/a/y.js", .file importer false),
    ("/b/x_pb.js", .file [] false), ("/b/z.js", .file importer false)]
  tree.identify (Path.ofText "/a/y.js".toList).location (Path.ofText "/b/z.js".toList).location

/-- **Where isolation ends.**  A missing output path may be the new name of a file of another target,
and then that target leads somewhere.  A file with a name in two directories is edited once, and the
report of one of the two targets says so.  And on a host on which one file of a directory cannot be
written, what a target leaves in another file depends on the way in which it is run. -/
theorem isolation_limits :
    let target (out : String) : Target := ⟨out.toList, .ofText out.toList, [], some .dualModule⟩
    let nested := FileTree.ofEntries [("/t/a_pb.js", .file [] false)]
    let importers := FileTree.ofEntries [("/a/x_pb.js", .file [] false),
      ("/a/y.js", .file (Utf8.encode "import './x_pb.js';".toList) false), ("/a/z.js", .file [] false)]
    let answers := Host.plain.guarding (.ofText "/a/z.js".toList)
    ((target "/t").Occupies .plain nested (target "/t").out.location ∧
      nested.canonical Host.plain.here (target "/t/a_pb.cjs").out = .error .noEntry ∧
      Target.Disturbed .plain nested [target "/t", target "/t/a_pb.cjs"]) ∧
    ((∀ out ∈ ["/a", "/b"], twinTree.LinkFree (target out).out.location ∧
        twinTree.canonical Host.plain.here (target out).out =
          .ok (target out).out.location.path) ∧
      Target.Disturbed .plain twinTree [target "/a", target "/b"]) ∧
    ((target "/a").Occupies .plain importers (target "/a").out.location ∧
      ∃ p ∈ (target "/a").ways, ∃ q ∈ (target "/a").ways,
        (p.runWith answers importers).2 ≠ (q.runWith answers importers).2) := by
  intro target nested importers answers
  have hnested : Target.Disturbed .plain nested [target "/t", target "/t/a_pb.cjs"] :=
    Target.disturbed_of_runAll (by decide +kernel)
  have htwin : Target.Disturbed .plain twinTree [target "/a", target "/b"] :=
    Target.disturbed_of_runAll (by decide +kernel)
  -- with the guarded file last, the other importer has been edited by then
  let importer := (Path.ofText "/a/y.js".toList).location
  have hways : ((target "/a").run none |>.runWith answers importers).2 ≠
      ((target "/a").backwards.runWith answers importers).2 := by
    intro heq
    have hsame := congrArg (fun u : FileTree => u.get? importer) heq
    revert hsame
    decide +kernel
  refine ⟨⟨⟨by decide +kernel, by decide +kernel, by decide +kernel⟩, by decide +kernel, hnested⟩,
    ⟨by decide +kernel, htwin⟩,
    ⟨⟨by decide +kernel, by decide +kernel, by decide +kernel⟩,
      _, (target "/a").run_mem_ways, _, Target.backwards_mem_ways rfl, hways⟩⟩

end DualModule
