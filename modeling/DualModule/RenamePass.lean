import DualModule.RenamePlan
import DualModule.Walk
/-!
# The rename pass

The pass gives every planned file below a root its new name.

**Nothing is overwritten and nothing is lost.**  The whole plan is checked before the first rename:
no two files may want the same name, and no wanted name may be taken.  A rename itself links the
file under its new name, which the system refuses if something has appeared there in the meantime,
and only then takes the old name away.

## Main Definitions

* `RenamePlan.check`
* `Mapping.perform`
* `renameBelow`
-/

namespace DualModule

/-- Fails if something is at the new path of a mapping. -/
def Mapping.requireFree (m : Mapping) : Attempt PassError Unit := do
  if ← Attempt.explained (.request (.test m.new)) (.rename m.old m.new) then
    throw (.collision m.old m.new)

namespace RenamePlan

/-- Checks mappings in plan order, after those in `claimed`. -/
def checkFrom (claimed : List Mapping) : List Mapping → Attempt PassError Unit
  | [] => pure ()
  | m :: ms =>
    match claimed.find? fun c => c.new.Same m.new with
    | some first => throw (.duplicateTarget first.old m.old m.new)
    | none => do
      m.requireFree
      checkFrom (m :: claimed) ms

/-- Fails with the first conflict of a plan: two files that want the same path, or a path that is
taken. -/
def check (plan : List Mapping) : Attempt PassError Unit := checkFrom [] plan

end RenamePlan

/-- Renames one file: first the new name, then away with the old one.  If the old name stays, the
new one is taken back. -/
def Mapping.perform (m : Mapping) : Attempt PassError Unit := do
  Attempt.explained (.request (.link m.old m.new)) fun cause =>
    if cause = .alreadyExists then .collision m.old m.new else .rename m.old m.new cause
  match ← Procedure.request (.unlink m.old) with
  | .ok () => pure ()
  | .error cause =>
    let _ ← Procedure.request (.unlink m.new)
    throw (.rename m.old m.new cause)

/-- Renames every file below `root` to which a rule applies, and says what was renamed. -/
def renameBelow (root : Path) (rules : List RenameRule) :
    Attempt PassError (List Mapping) := do
  let plan := RenamePlan.of (← filesBelow root) rules
  RenamePlan.check plan
  plan.forM Mapping.perform
  return plan

end DualModule
