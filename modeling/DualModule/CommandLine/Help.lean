import DualModule.CommandLine.Arguments
/-!
# Help

What is shown to those who ask for help, and to those who need it.

## Main Definitions

* `CommandLine.UsageError.message`
* `CommandLine.helpText`, `CommandLine.versionText`
-/

namespace DualModule.CommandLine

/-- The wording of a usage error. -/
def UsageError.message : UsageError → String
  | unknownOption argument => s!"unexpected argument '{String.ofList argument}' found"
  | missingValue option => s!"a value is required for '--{option}' but none was supplied"
  | unexpectedValue option => s!"unexpected value for '--{option}' found; no more were expected"
  | emptyValue name => s!"a value is required for '{name}' but none was supplied"
  | repeated option => s!"the argument '--{option}' cannot be used multiple times"
  | unexpectedOperand argument => s!"unexpected argument '{String.ofList argument}' found"
  | missingOperand name => s!"the required argument <{name}> was not provided"
  | unknownCommand name => s!"unrecognized subcommand '{String.ofList name}'"
  | missingCommand => "a subcommand is required"

/-- The name and version of the program. -/
def versionText : String := "protogen 0.1.0\n"

/-- The lines about options that every command takes. -/
def sharedOptions : String :=
  "  -v, --verbose                        Print additional diagnostics to stderr\n" ++
  "  -h, --help                           Print help\n"

/-- Help about a command, or about everything. -/
def helpText : Option String → String
  | some "generate" =>
    "Run the generator for every target, then post-process the output\n\n" ++
    "Usage: protogen generate [OPTIONS]\n\n" ++
    "Options:\n" ++
    "      --proto-pattern <PROTO_PATTERN>  Proto files search pattern" ++
    " [default: ./proto/**/*.proto]\n" ++
    "      --includes <INCLUDES>...         Proto include paths used in generation" ++
    " [default: proto]\n" ++
    "      --protoc <PROTOC>                Generator executable [default: protoc]\n" ++
    "  -c, --config <CONFIG>                JSON file defining targets." ++
    " Defaults to the built-in ts/node, ts/web and go targets\n" ++
    "  -t, --target <TARGET>                Only run the named targets (repeatable)\n" ++
    "      --no-post-process                Skip renaming and import rewriting for every target\n" ++
    "      --json                           Emit JSON instead of human-readable output\n" ++
    sharedOptions
  | some "normalize" =>
    "Rename generated files and rewrite imports in an existing tree\n\n" ++
    "Usage: protogen normalize [OPTIONS] <ROOT>\n\n" ++
    "Arguments:\n" ++
    "  <ROOT>  Root of the generated tree\n\n" ++
    "Options:\n" ++
    "      --json                           Emit JSON instead of human-readable output\n" ++
    sharedOptions
  | some "targets" =>
    "List configured targets\n\n" ++
    "Usage: protogen targets [OPTIONS]\n\n" ++
    "Options:\n" ++
    "  -c, --config <CONFIG>                JSON file defining targets\n" ++
    sharedOptions
  | some _ =>
    "Print this message or the help of the given subcommand(s)\n\n" ++
    "Usage: protogen help [COMMAND]...\n"
  | none =>
    "Generate protobuf sources and normalize them for CommonJS and ES module consumers\n\n" ++
    "Usage: protogen [OPTIONS] <COMMAND>\n\n" ++
    "Commands:\n" ++
    "  generate   Run the generator for every target, then post-process the output\n" ++
    "  normalize  Rename generated files and rewrite imports in an existing tree\n" ++
    "  targets    List configured targets\n" ++
    "  help       Print this message or the help of the given subcommand(s)\n\n" ++
    "Options:\n" ++
    "  -v, --verbose  Print additional diagnostics to stderr\n" ++
    "  -h, --help     Print help\n" ++
    "  -V, --version  Print version\n"

end DualModule.CommandLine
