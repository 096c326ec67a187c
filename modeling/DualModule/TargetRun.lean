import DualModule.Generation
import DualModule.ImportPass
import DualModule.RenamePass
import DualModule.Stage
/-!
# Running targets

A target goes through its stages one after another: generation if there is a generator, then, if
the target asks for it, renaming and editing.  The import pass needs all mappings, so renaming is
finished before it starts.

**A report says what happened.**  It keeps the trail of stages, and what was found out on the way is
recorded when it is known.  A failure is part of the report and never stops other targets.

## Main Definitions

* `TargetError`
* `Report`, `Report.stage`
* `Target.run`, `Target.runAll`
-/

namespace DualModule

/-- Why a target failed. -/
inductive TargetError where
  | generation (error : GenerationError)
  | pass (error : PassError)
deriving DecidableEq

/-- The wording of a failure. -/
def TargetError.message : TargetError → String
  | generation error => error.message
  | pass error => error.message

/-- What became of a target. -/
structure Report where
  target : Text
  out : Path
  /-- the stages reached after `Stage.notStarted`, the last one first -/
  trail : List Stage
  /-- the stage that was reached before a failure -/
  failedAfter? : Option Stage
  /-- whether both passes over the tree were finished -/
  postProcessed : Bool
  renamed : Nat
  edits : Option EditSummary
  error : Option TargetError
deriving DecidableEq

namespace Report

/-- The report of a target that has not been started. -/
def start (t : Target) : Report := ⟨t.name, t.out, [], none, false, 0, none, none⟩

/-- The stage that was reached last. -/
def stage (r : Report) : Stage := r.trail.headD .notStarted

/-- Whether the target failed. -/
def hasFailed (r : Report) : Bool := r.stage = .failed

/-- Records that a stage was reached. -/
def advance (r : Report) (next : Stage) : Report := { r with trail := next :: r.trail }

/-- Records a failure. -/
def fail (r : Report) (error : TargetError) : Report :=
  { r with error := some error, failedAfter? := some r.stage }.advance .failed

end Report

namespace Target

/-- The two passes over the tree of a target. -/
def normalize (t : Target) (rules : List RenameRule) (report : Report) : Procedure Report := do
  match ← (renameBelow t.out rules).run with
  | .error e => return report.fail (.pass e)
  | .ok mappings =>
    let report := { report with renamed := mappings.length }.advance .renamed
    match ← (editImports t.out mappings).run with
    | .error e => return report.fail (.pass e)
    | .ok summary =>
      let report := { report with edits := some summary, postProcessed := true }.advance .edited
      return report.advance .done

/-- What follows generation. -/
def finish (t : Target) (report : Report) : Procedure Report :=
  match t.postProcess with
  | none => return report.advance .done
  | some p => t.normalize p.rules report

/-- Runs a target to its end.  Without a generator the tree is taken as it is. -/
def run (t : Target) (generator : Option Generator) : Procedure Report := do
  match generator with
  | none => t.finish (.start t)
  | some g =>
    match ← (t.generate g).run with
    | .error e => return (Report.start t).fail (.generation e)
    | .ok () => t.finish ((Report.start t).advance .generated)

/-- Runs targets, each whatever becomes of the others; the reports are in the order of the
targets. -/
def runAll (targets : List Target) (generator : Option Generator) : Procedure (List Report) :=
  targets.mapM (·.run generator)

end Target

end DualModule
