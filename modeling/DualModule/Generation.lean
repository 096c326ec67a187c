import DualModule.Blank
import DualModule.Ordered
import DualModule.PassError
import DualModule.Procedure
import DualModule.Target
/-!
# Generation

A target is generated by running the generator once for each of its argument groups, into a
directory that is made afresh.

**Nothing is touched before the arguments are known.**  All groups are rendered first; then the
output directory is emptied; then the generator runs, group by group, until a run fails.

## Main Definitions

* `Generator`, `Generator.arguments`
* `GenerationError`
* `matchingSources`, `freshDirectory`
* `Generator.runGroup`, `Target.generate`
-/

namespace DualModule

/-- A generator, and what all its runs have in common. -/
structure Generator where
  /-- the program that is run -/
  program : Text
  /-- where the generator looks for imported files -/
  includes : List Path
  /-- what it generates from -/
  sources : List Path
deriving DecidableEq

/-- The arguments of one run: include directories, then the group, then the files. -/
def Generator.arguments (g : Generator) (group : List Text) : List Text :=
  g.includes.map (fun directory => "-I".toList ++ directory.display) ++ group ++
    g.sources.map Path.display

/-- Why a target could not be generated. -/
inductive GenerationError where
  | pattern (text : Text) (error : PatternError)
  /-- no file matches a pattern -/
  | noSources (text : Text)
  /-- the output directory could not be made afresh -/
  | directory (out : Path) (cause : SystemError)
  /-- the program could not be started -/
  | spawn (program : Text) (cause : SystemError)
  /-- the program did not end well -/
  | failed (program : Text) (status : ExitStatus) (stderr : Text)
  | template (error : TemplateError)
deriving DecidableEq

/-- The wording of a template error. -/
def TemplateError.message : TemplateError → String
  | unknownPlaceholder name template =>
    s!"unknown placeholder '\x7b{String.ofList name}\x7d' in argument '{String.ofList template}'"
  | unterminatedPlaceholder template =>
    s!"unterminated placeholder in argument '{String.ofList template}'"

/-- The wording of a failure. -/
def GenerationError.message : GenerationError → String
  | pattern text error => s!"invalid proto pattern '{String.ofList text}': {error.message}"
  | noSources text => s!"no proto files match '{String.ofList text}'"
  | directory out cause => s!"failed to prepare output directory {out.shown}: {cause.message}"
  | spawn program cause => s!"failed to run {String.ofList program}: {cause.message}"
  | failed program status stderr =>
    s!"{String.ofList program} exited with {status.message}: {String.ofList stderr}"
  | template error => error.message

/-- The files that a pattern selects, in path order; that there are none is a failure. -/
def matchingSources (pattern : Text)
    (understand : Text → Except PatternError Glob.Pattern := Glob.Pattern.parse) :
    Attempt GenerationError (List Path) := do
  match understand pattern with
  | .error e => throw (.pattern pattern e)
  | .ok parsed =>
    let files := ordered Path.le (← Procedure.request (.expand parsed))
    if files.isEmpty then throw (.noSources pattern)
    return files

/-- Takes away what is at `out` and makes an empty directory there. -/
def freshDirectory (out : Path) : Attempt GenerationError Unit := do
  if ← Attempt.explained (.request (.test out)) (.directory out) then
    Attempt.explained (.request (.removeTree out)) (.directory out)
  Attempt.explained (.request (.makeDirectories out)) (.directory out)

/-- Runs the generator with one group of arguments. -/
def Generator.runGroup (g : Generator) (group : List Text) : Attempt GenerationError Unit := do
  let completion ← Attempt.explained (.request (.launch g.program (g.arguments group)))
    (.spawn g.program)
  if completion.status ≠ .code 0 then
    throw (.failed g.program completion.status (trim (Utf8.lossy completion.stderr)))

/-- Fills the output directory of a target. -/
def Target.generate (t : Target) (g : Generator) : Attempt GenerationError Unit := do
  match t.renderedInvocations with
  | .error e => throw (.template e)
  | .ok groups =>
    freshDirectory t.out
    groups.forM g.runGroup

end DualModule
