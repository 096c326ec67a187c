import DualModule.CommandLine.Arguments
import DualModule.Path
/-!
# Commands

What can be asked for on the command line: generating targets, normalizing a tree that is there
already, or listing targets.

Before the command's name only options that hold for every command may stand; behind it, those and
the command's own.

## Main Definitions

* `CommandLine.GenerateOptions`, `CommandLine.Command`
* `CommandLine.Command.parse`
-/

namespace DualModule.CommandLine

/-- What is asked of generation. -/
structure GenerateOptions where
  protoPattern : Text
  includes : List Text
  protoc : Text
  config : Option Path
  /-- the names of the targets to run; none means all -/
  only : List Text
  skipsPostProcess : Bool
  asJson : Bool
deriving DecidableEq

/-- What can be asked for. -/
inductive Command where
  | generate (options : GenerateOptions)
  | normalize (root : Path) (asJson : Bool)
  | targets (config : Option Path)
deriving DecidableEq

/-- An option that takes nothing. -/
def OptionKind.flag (long : String) (short : Option Char) : OptionKind :=
  ⟨long, short, .nothing, false, false⟩

/-- The option for more diagnostics, which every command takes. -/
def OptionKind.verbose : OptionKind := .flag "verbose" (some 'v')

/-- The option for output that programs read. -/
def OptionKind.json : OptionKind := .flag "json" none

/-- The option that names a configuration. -/
def OptionKind.config : OptionKind := ⟨"config", some 'c', .one, false, true⟩

/-- The option that asks for help about a command, or about everything. -/
def OptionKind.help (command : Option String) : OptionKind :=
  ⟨"help", some 'h', .stop (.help command), false, false⟩

namespace CommandKind

/-- Generating targets. -/
def generate : CommandKind where
  name := "generate"
  options := [⟨"proto-pattern", none, .one, false, false⟩,
    ⟨"includes", none, .oneOrMore, true, false⟩, ⟨"protoc", none, .one, false, false⟩, .config,
    ⟨"target", some 't', .one, true, false⟩, .flag "no-post-process" none, .json, .verbose,
    .help (some "generate")]
  operands := []

/-- Normalizing a tree. -/
def normalize : CommandKind where
  name := "normalize"
  options := [.json, .verbose, .help (some "normalize")]
  operands := ["ROOT"]

/-- Listing targets. -/
def targets : CommandKind where
  name := "targets"
  options := [.config, .verbose, .help (some "targets")]
  operands := []

/-- What may stand before a command. -/
def leading : CommandKind where
  name := ""
  options := [.verbose, .help none, ⟨"version", some 'V', .stop .version, false, false⟩]
  operands := []

end CommandKind

namespace Command

/-- The commands that can be asked for help about. -/
def names : List String := ["generate", "normalize", "targets", "help"]

/-- A request for help about the command that is named, if any. -/
def helpAbout : List Text → Stop
  | [] => .help none
  | [name] =>
    match names.find? (·.toList = name) with
    | some name => .help (some name)
    | none => .usage (.unknownCommand name)
  | name :: other :: _ =>
    .usage (.unknownCommand (if names.any (·.toList = name) then other else name))

/-- The command of a name, from its arguments. -/
def ofArguments (name : Text) (arguments : List Text) : Except Stop Command := do
  match String.ofList name with
  | "generate" =>
    let given ← read .generate arguments
    let includes := valuesGiven "includes" given
    return .generate {
      protoPattern := (valueGiven? "proto-pattern" given).getD "./proto/**/*.proto".toList
      includes := if includes.isEmpty then ["proto".toList] else includes
      protoc := (valueGiven? "protoc" given).getD "protoc".toList
      config := (valueGiven? "config" given).map .ofText
      only := valuesGiven "target" given
      skipsPostProcess := isGiven "no-post-process" given
      asJson := isGiven "json" given }
  | "normalize" =>
    let given ← read .normalize arguments
    return .normalize (.ofText (operandsGiven given).flatten) (isGiven "json" given)
  | "targets" =>
    let given ← read .targets arguments
    return .targets ((valueGiven? "config" given).map .ofText)
  | "help" => throw (helpAbout arguments)
  | _ => throw (.usage (.unknownCommand name))

/-- Reads what stands before the command, then the command. -/
def parseFrom (r : Reading) : List Text → Except Stop Command
  | [] => .error (.usage .missingCommand)
  | argument :: arguments =>
    match argument with
    | '-' :: _ :: _ => do
      let r ← r.step .leading argument
      if r.isEscaped then
        throw (.usage (arguments.head?.elim .missingCommand .unexpectedOperand))
      parseFrom r arguments
    | name => ofArguments name arguments

/-- Reads a command line. -/
def parse (arguments : List Text) : Except Stop Command := parseFrom .empty arguments

end Command

end DualModule.CommandLine
