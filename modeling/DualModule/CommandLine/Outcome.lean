import DualModule.Config
import DualModule.Json.Printer
import DualModule.TargetRun
/-!
# What a command shows

A command ends with an exit code and with text on two streams.  Results go to the first stream and
failures to the second; a list for programs goes to the first whatever is in it.

**A failure is shown with its causes**, from the nearest to the farthest.  A single cause stands by
itself, several are numbered; further lines of a cause are indented like its first.

## Main Definitions

* `CommandLine.Outcome`
* `CommandLine.Failure`, `CommandLine.Failure.text`
* `Report.line`, `Report.tree`, `CommandLine.Outcome.ofReports`
-/

namespace DualModule

namespace CommandLine

/-- What a command leaves behind. -/
structure Outcome where
  exitCode : Nat
  output : Text
  errors : Text
deriving DecidableEq

/-- Why a command could not do its work. -/
structure Failure where
  message : String
  causes : List String
deriving DecidableEq

/-- Text whose first line begins with `first` and every other line with `others`. -/
def indented (first others : String) (text : String) : Text :=
  first.toList ++ List.intercalate ('\n' :: others.toList) (pieces '\n' text.toList)

/-- The causes of a failure, each beginning on a new line. -/
def Failure.causeLines : List String → List Text
  | [] => []
  | [cause] => [indented "    " "    " cause]
  | causes => causes.mapIdx fun i cause => indented s!"    {i}: " "       " cause

/-- How a failure is shown. -/
def Failure.text (f : Failure) : Text :=
  "Error: ".toList ++ f.message.toList ++
    (if f.causes.isEmpty then []
     else "\n\nCaused by:".toList ++ (causeLines f.causes).flatMap ('\n' :: ·)) ++ ['\n']

/-- What a command that failed leaves behind. -/
def Outcome.ofFailure (f : Failure) : Outcome := ⟨1, [], f.text⟩

end CommandLine

namespace Report

/-- The name and place of a target, as they begin a line. -/
def heading (r : Report) : Text := r.target ++ " (".toList ++ r.out.display ++ [')']

/-- The line that says what became of a target. -/
def line (r : Report) : Text :=
  match r.failedAfter?, r.edits with
  | some stage, _ =>
    "error: ".toList ++ r.heading ++ s!" failed after {stage.title}: ".toList ++
      ((r.error.map TargetError.message).getD "").toList ++ ['\n']
  | none, some summary =>
    "ok: ".toList ++ r.heading ++
      s!" renamed {r.renamed} file(s), rewrote {summary.replacements} import(s)".toList ++
      s!" in {summary.filesChanged} of {summary.filesVisited} file(s)\n".toList
  | none, none => "ok: ".toList ++ r.heading ++ " (no post-processing)\n".toList

/-- What became of a target, for programs to read. -/
def tree (r : Report) : Json.Tree :=
  .object (
    [("target", .string r.target), ("out", .string r.out.display),
      ("stage", .string r.stage.label.toList)] ++
    (r.failedAfter?.map fun stage => ("failed_after", .string stage.label.toList)).toList ++
    [("post_processed", .boolean r.postProcessed), ("renamed", .natural r.renamed)] ++
    (r.edits.map fun summary => ("rewrite", .object [
      ("files_visited", .natural summary.filesVisited),
      ("files_changed", .natural summary.filesChanged),
      ("replacements", .natural summary.replacements)])).toList ++
    (r.error.map fun error => ("error", .string error.message.toList)).toList)

end Report

namespace CommandLine

/-- What a command that ran targets leaves behind. -/
def Outcome.ofReports (asJson : Bool) (reports : List Report) : Outcome where
  exitCode := if reports.any Report.hasFailed then 1 else 0
  output :=
    if asJson then (Json.Tree.array (reports.map Report.tree)).pretty 0 ++ ['\n']
    else (reports.filter (!·.hasFailed)).flatMap Report.line
  errors := if asJson then [] else (reports.filter Report.hasFailed).flatMap Report.line

end CommandLine

end DualModule
