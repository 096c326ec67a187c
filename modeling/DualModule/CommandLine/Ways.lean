import DualModule.CommandLine.Run
import DualModule.TargetWays
/-!
# Ways to generate

Everything that can go wrong with a command line is found out first, one thing after another.  Then
all targets are run together, each in any of its own ways.

## Main Definitions

* `CommandLine.generateWays`
* `CommandLine.run_mem_generateWays`: one target after another
-/

namespace DualModule.CommandLine

/-- The ways to generate the targets that are asked for. -/
def generateWays (readers : Readers) (o : GenerateOptions) : Ways Outcome := do
  match ← Ways.only (prepareGenerate readers o).run with
  | .error failure => return .ofFailure failure
  | .ok work =>
    let reports ← Ways.merge (work.targets.map (·.waysWith (some work.generator)))
    return work.outcome o.asJson reports

/-- **One target after another** is a way to generate. -/
theorem run_mem_generateWays (readers : Readers) (o : GenerateOptions) :
    (Command.generate o).run readers ∈ generateWays readers o := by
  have hrun : (Command.generate o).run readers =
      (prepareGenerate readers o).run >>= fun
        | .error failure => pure (.ofFailure failure)
        | .ok work => do
          let reports ← Target.runAll work.targets (some work.generator)
          return work.outcome o.asJson reports := by
    simp only [Command.run, settled, runGenerate, ExceptT.run_bind, bind_assoc]
    congr 1
    funext result
    cases result with
    | error failure => rfl
    | ok work =>
        show (Except.ok <$> Target.runAll work.targets (some work.generator)) >>= _ >>= _ = _
        rw [map_eq_pure_bind, bind_assoc, bind_assoc]
        rfl
  rw [hrun]
  refine Ways.mem_bind (Ways.mem_only _) fun result => ?_
  cases result with
  | error failure => rfl
  | ok work =>
      refine Ways.mem_bind ?_ fun reports => Ways.mem_only _
      exact Ways.mapM_mem_merge fun target _ => target.run_mem_waysWith _

end DualModule.CommandLine
