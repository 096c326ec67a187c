import DualModule.Procedure.Ways
import DualModule.TargetRun
/-!
# Ways to run a target

Within a target, too, requests may be under way at the same time: a walk lists the directories that
it has found in a directory together, and the import pass edits files together.  Everything else is
done one after another, as in `Target.run`, which is one of the ways (`Target.run_mem_ways`).

How many listings and edits may be under way together is not limited here, so that any limit leaves
some of these ways.

## Main Definitions

* `walkBelowWays`, `walkWays`, `filesBelowWays`
* `renameBelowWays`, `editImportsWays`
* `Target.waysWith`, `Target.ways`
-/

namespace DualModule

/-! ### Walks -/

/-- Everything below a directory, at most `levels` deep.  The directories in a directory are gone
into together. -/
def walkBelowWays : Nat → Path → AttemptWays PassError (List Found)
  | 0, directory => .only (walkBelow 0 directory)
  | levels + 1, directory => do
    let entries ← AttemptWays.only
      (Attempt.explained (.request (.list directory)) (.traversal directory))
    let found := entries.filterMap (Found.ofEntry? directory)
    let nested ← AttemptWays.together
      ((found.filter (·.kind = .directory)).map fun d => walkBelowWays levels d.path)
    return found ++ nested.flatten

/-- Every directory and every regular file below `root`, which itself is not listed. -/
def walkWays (root : Path) : AttemptWays PassError (List Found) := do
  let canonical ← AttemptWays.only
    (Attempt.explained (.request (.canonicalize root)) (.traversal root))
  walkBelowWays maxPathLength canonical

/-- The paths of the regular files below `root`. -/
def filesBelowWays (root : Path) : AttemptWays PassError (List Path) := do
  let found ← walkWays root
  return (found.filter (·.kind = .file)).map (·.path)

theorem walkBelowWays_has (levels : Nat) (directory : Path) :
    (walkBelowWays levels directory).Has (walkBelow levels directory) := by
  induction levels generalizing directory with
  | zero => exact AttemptWays.has_only _
  | succ levels ih =>
      unfold walkBelowWays walkBelow
      refine (AttemptWays.has_only _).bind fun entries => ?_
      exact (AttemptWays.has_mapM fun d _ => ih d.path).bind fun _ => AttemptWays.has_pure _

theorem walkWays_has (root : Path) : (walkWays root).Has (walk root) :=
  (AttemptWays.has_only _).bind fun _ => walkBelowWays_has _ _

theorem filesBelowWays_has (root : Path) : (filesBelowWays root).Has (filesBelow root) :=
  (walkWays_has root).bind fun _ => AttemptWays.has_pure _

/-! ### The passes -/

/-- What the rename pass does with a plan. -/
def RenamePlan.carryOut (plan : List Mapping) : Attempt PassError (List Mapping) := do
  check plan
  plan.forM Mapping.perform
  return plan

/-- Renames every file below `root` to which a rule applies, and says what was renamed. -/
def renameBelowWays (root : Path) (rules : List RenameRule) :
    AttemptWays PassError (List Mapping) := do
  .only (RenamePlan.carryOut (RenamePlan.of (← filesBelowWays root) rules))

/-- Edits every regular file below `root`, all of them together. -/
def editImportsWays (root : Path) (mappings : List Mapping) :
    AttemptWays PassError EditSummary := do
  let files ← filesBelowWays root
  let outcomes ← AttemptWays.together (files.map fun file => .only (editFile mappings file))
  return .ofOutcomes outcomes

theorem renameBelowWays_has (root : Path) (rules : List RenameRule) :
    (renameBelowWays root rules).Has (renameBelow root rules) :=
  (filesBelowWays_has root).bind fun _ => AttemptWays.has_only _

theorem editImportsWays_has (root : Path) (mappings : List Mapping) :
    (editImportsWays root mappings).Has (editImports root mappings) := by
  refine (filesBelowWays_has root).bind fun files => ?_
  exact (AttemptWays.has_mapM fun _ _ => AttemptWays.has_only _).bind fun _ =>
    AttemptWays.has_pure _

/-! ### Targets -/

namespace Target

/-- The two passes over the tree of a target. -/
def normalizeWays (t : Target) (rules : List RenameRule) (report : Report) : Ways Report := do
  match ← (renameBelowWays t.out rules).run with
  | .error e => return report.fail (.pass e)
  | .ok mappings =>
    let report := { report with renamed := mappings.length }.advance .renamed
    match ← (editImportsWays t.out mappings).run with
    | .error e => return report.fail (.pass e)
    | .ok summary =>
      let report := { report with edits := some summary, postProcessed := true }.advance .edited
      return report.advance .done

/-- What follows generation. -/
def finishWays (t : Target) (report : Report) : Ways Report :=
  match t.postProcess with
  | none => return report.advance .done
  | some p => t.normalizeWays p.rules report

/-- The ways to run a target to its end, with a generator if there is one.  The runs of the
generator follow one another. -/
def waysWith (t : Target) (generator : Option Generator) : Ways Report := do
  match generator with
  | none => t.finishWays (.start t)
  | some g =>
    match ← Ways.only (t.generate g).run with
    | .error e => return (Report.start t).fail (.generation e)
    | .ok () => t.finishWays ((Report.start t).advance .generated)

/-- The ways to run a target to its end, without a generator. -/
def ways (t : Target) : Ways Report := t.waysWith none

theorem finish_mem_finishWays (t : Target) (report : Report) :
    t.finish report ∈ t.finishWays report := by
  unfold finish finishWays
  cases t.postProcess with
  | none => rfl
  | some p =>
      refine Ways.mem_bind (renameBelowWays_has _ _) fun result => ?_
      cases result with
      | error e => rfl
      | ok mappings =>
          refine Ways.mem_bind (editImportsWays_has _ _) fun result => ?_
          cases result <;> rfl

/-- **One request after another** is a way to run a target. -/
theorem run_mem_waysWith (t : Target) (generator : Option Generator) :
    t.run generator ∈ t.waysWith generator := by
  cases generator with
  | none => exact t.finish_mem_finishWays _
  | some g =>
      refine Ways.mem_bind (Ways.mem_only _) fun result => ?_
      cases result with
      | error e => rfl
      | ok => exact t.finish_mem_finishWays _

/-- Without a generator, too. -/
theorem run_mem_ways (t : Target) : t.run none ∈ t.ways := t.run_mem_waysWith none

end Target

end DualModule
