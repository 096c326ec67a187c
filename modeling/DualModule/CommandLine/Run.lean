import DualModule.CommandLine.Command
import DualModule.CommandLine.Help
import DualModule.CommandLine.Outcome
/-!
# Running commands

Commands as procedures.  A command that cannot get as far as running targets fails as a whole; the
failure of a target is part of the outcome.

What a text means, be it that of the arguments, of a configuration or of a pattern, is for readers
to say.  Running a command does not depend on how they come to it.

## Main Definitions

* `CommandLine.Readers`
* `CommandLine.targetsNamed`
* `CommandLine.Workload`, `CommandLine.prepareGenerate`
* `CommandLine.Command.run`
* `CommandLine.run`: a whole command line
-/

namespace DualModule.CommandLine

/-- How texts are understood. -/
structure Readers where
  command : List Text → Except Stop Command
  targets : Text → Except ConfigFault (List Target)
  pattern : Text → Except PatternError Glob.Pattern

/-- The readers that are used. -/
def Readers.standard : Readers := ⟨Command.parse, Config.targets, Glob.Pattern.parse⟩

/-- A configuration that could not be used, as the failure of a command. -/
def Failure.ofLoadError (path : Path) (e : LoadError) : Failure where
  message := s!"Failed to load targets from {path.shown}"
  causes := [e.message, e.causeMessage]

/-- Files that could not be found, as the failure of a command. -/
def Failure.ofGenerationError (e : GenerationError) : Failure where
  message := e.message
  causes := match e with
    | .pattern _ error => [error.message]
    | .directory _ cause | .spawn _ cause => [cause.message]
    | _ => []

/-- The targets of a configuration, or the ones that are built in. -/
def knownTargets (readers : Readers) : Option Path → Attempt Failure (List Target)
  | some path => (Config.load path readers.targets).adapt (.ofLoadError path)
  | none => return Target.builtin

/-- The targets whose names are asked for; no name asks for all. -/
def targetsNamed (targets : List Target) (only : List Text) : Except Failure (List Target) :=
  if only.isEmpty then .ok targets
  else
    match only.find? fun name => !targets.any (·.name = name) with
    | some unknown =>
      let known := String.ofList (List.intercalate [',', ' '] (targets.map Target.name))
      .error ⟨s!"Unknown target '{String.ofList unknown}' (known: {known})", []⟩
    | none => .ok (targets.filter fun t => only.contains t.name)

/-- The lines that show a target. -/
def targetLines (t : Target) : Text :=
  let post := match t.postProcess with
    | some .dualModule => "dual-module"
    | none => "none"
  t.name ++ " -> ".toList ++ t.out.display ++ s!" (post-process: {post})\n".toList ++
    t.invocations.flatMap fun group =>
      "    ".toList ++ List.intercalate [' '] group ++ ['\n']

/-- What there is to generate, and with which generator. -/
structure Workload where
  targets : List Target
  generator : Generator
deriving DecidableEq

/-- Finds out what there is to generate. -/
def prepareGenerate (readers : Readers) (o : GenerateOptions) : Attempt Failure Workload := do
  let targets ← ExceptT.mk (pure (targetsNamed (← knownTargets readers o.config) o.only))
  let targets :=
    if o.skipsPostProcess then targets.map ({ · with postProcess := none }) else targets
  let sources ← (matchingSources o.protoPattern readers.pattern).adapt .ofGenerationError
  return ⟨targets, ⟨o.protoc, o.includes.map .ofText, sources⟩⟩

/-- The line that says what is about to be generated. -/
def Workload.announcement (work : Workload) : Text :=
  (s!"info: Generating {work.targets.length} target(s)" ++
    s!" from {work.generator.sources.length} proto file(s)\n").toList

/-- What generation leaves behind. -/
def Workload.outcome (work : Workload) (asJson : Bool) (reports : List Report) : Outcome :=
  let outcome := Outcome.ofReports asJson reports
  { outcome with output := (if asJson then [] else work.announcement) ++ outcome.output }

/-- Generates the targets that are asked for. -/
def runGenerate (readers : Readers) (o : GenerateOptions) : Attempt Failure Outcome := do
  let work ← prepareGenerate readers o
  return work.outcome o.asJson (← Target.runAll work.targets (some work.generator))

/-- Normalizes a tree that is there already. -/
def runNormalize (root : Path) (asJson : Bool) : Procedure Outcome := do
  let target : Target := ⟨root.display, root, [], some .dualModule⟩
  return .ofReports asJson [← target.run none]

/-- Lists targets. -/
def runTargets (readers : Readers) (config : Option Path) : Attempt Failure Outcome := do
  return ⟨0, (← knownTargets readers config).flatMap targetLines, []⟩

/-- The outcome of an attempt. -/
def settled (attempt : Attempt Failure Outcome) : Procedure Outcome := do
  match ← attempt.run with
  | .ok outcome => return outcome
  | .error failure => return .ofFailure failure

/-- Runs a command. -/
def Command.run (readers : Readers) : Command → Procedure Outcome
  | generate options => settled (runGenerate readers options)
  | normalize root asJson => runNormalize root asJson
  | targets config => settled (runTargets readers config)

/-- What is shown instead of running a command. -/
def Stop.outcome : Stop → Outcome
  | usage error => ⟨2, [], s!"error: {error.message}\n".toList⟩
  | help command => ⟨0, (helpText command).toList, []⟩
  | version => ⟨0, versionText.toList, []⟩

/-- Runs a command line. -/
def run (arguments : List Text) (readers : Readers := .standard) : Procedure Outcome :=
  match readers.command arguments with
  | .ok command => command.run readers
  | .error stop => return stop.outcome

end DualModule.CommandLine
