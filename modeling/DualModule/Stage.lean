/-!
# Stages

How far a target has come.  A target is generated, then renamed, then edited, then done; it may
skip generation when the tree is there already, and it skips the two passes over the tree together
or not at all.  It may fail at any point, and after `done` or `failed` nothing follows.

## Main Definitions

* `Stage`, `Stage.isTerminal`, `Stage.canAdvance`
-/

namespace DualModule

/-- How far a target has come. -/
inductive Stage where
  | notStarted
  | generated
  | renamed
  | edited
  | done
  | failed
deriving DecidableEq

namespace Stage

/-- Whether nothing follows. -/
def isTerminal : Stage → Bool
  | done | failed => true
  | _ => false

/-- Whether `next` may follow a stage. -/
def canAdvance (stage next : Stage) : Bool :=
  match stage, next with
  | done, _ | failed, _ => false
  | _, failed => true
  | notStarted, generated | notStarted, renamed | notStarted, done => true
  | generated, renamed | generated, done => true
  | renamed, edited => true
  | edited, done => true
  | _, _ => false

/-- The stage's name in messages. -/
def title : Stage → String
  | notStarted => "NotStarted"
  | generated => "Generated"
  | renamed => "Renamed"
  | edited => "Rewritten"
  | done => "Done"
  | failed => "Failed"

/-- The stage's name in reports. -/
def label : Stage → String
  | notStarted => "not_started"
  | generated => "generated"
  | renamed => "renamed"
  | edited => "rewritten"
  | done => "done"
  | failed => "failed"

end Stage

end DualModule
