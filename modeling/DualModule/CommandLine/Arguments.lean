import DualModule.Utf8
/-!
# Reading arguments

Arguments are options, which begin with a dash, and operands.  A command says which options it
knows and what they take; reading turns arguments into a list of what was given, in order.

**Spelling.**  A long option takes its value behind `=` or as the next argument; short options may
share an argument, and the last of them takes the rest of it, or what follows `=`, or the next
argument.  An option that takes several values takes all arguments up to the next option.  A single
dash is an ordinary value, and behind `--` everything is an operand.

**The first problem decides.**  Arguments are read from left to right, and asking for help counts
at its place like a problem.

## Main Definitions

* `CommandLine.Stop`, `CommandLine.UsageError`
* `CommandLine.Takes`, `CommandLine.OptionKind`, `CommandLine.CommandKind`
* `CommandLine.Given`, `CommandLine.read`
-/

namespace DualModule.CommandLine

/-- Why arguments say nothing that could be done. -/
inductive UsageError where
  | unknownOption (argument : Text)
  | missingValue (option : String)
  | unexpectedValue (option : String)
  | emptyValue (name : String)
  | repeated (option : String)
  | unexpectedOperand (argument : Text)
  | missingOperand (name : String)
  | unknownCommand (name : Text)
  | missingCommand
deriving DecidableEq

/-- Why reading stops before a command is run. -/
inductive Stop where
  | usage (error : UsageError)
  /-- help is asked for, about a command or everything -/
  | help (command : Option String)
  | version
deriving DecidableEq

/-- What an option takes. -/
inductive Takes where
  | nothing
  | one
  | oneOrMore
  /-- nothing; it ends reading -/
  | stop (reason : Stop)
deriving DecidableEq

/-- An option that a command knows. -/
structure OptionKind where
  long : String
  short : Option Char
  takes : Takes
  /-- whether it may be given more than once -/
  isRepeatable : Bool
  /-- whether its values may not be empty -/
  isFilled : Bool
deriving DecidableEq

/-- What a command takes: options, and as many operands as there are names for them. -/
structure CommandKind where
  name : String
  options : List OptionKind
  operands : List String
deriving DecidableEq

/-- One thing that was given: an option with its values, or an operand. -/
inductive Given where
  | option (long : String) (values : List Text)
  | operand (value : Text)
deriving DecidableEq

/-- What was read so far. -/
structure Reading where
  given : List Given
  /-- the option whose values are being read -/
  pending : Option (OptionKind × List Text)
  /-- whether only operands are left -/
  isEscaped : Bool

/-- The number of times an option was given. -/
def timesGiven (long : String) (given : List Given) : Nat :=
  given.countP fun
    | .option name _ => name = long
    | .operand _ => false

/-- The operands, in order. -/
def operandsGiven (given : List Given) : List Text :=
  given.filterMap fun
    | .option _ _ => none
    | .operand value => some value

namespace Reading

/-- Nothing was read. -/
def empty : Reading := ⟨[], none, false⟩

/-- Records an option with its values. -/
def record (r : Reading) (kind : OptionKind) (values : List Text) : Except Stop Reading :=
  match kind.takes with
  | .stop reason => .error reason
  | takes =>
    if takes ≠ .nothing ∧ values = [] then .error (.usage (.missingValue kind.long))
    else if !kind.isRepeatable ∧ timesGiven kind.long r.given ≠ 0 then
      .error (.usage (.repeated kind.long))
    else if kind.isFilled ∧ [] ∈ values then .error (.usage (.emptyValue kind.long))
    else .ok { r with given := r.given ++ [.option kind.long values] }

/-- Records the option whose values were being read. -/
def settle (r : Reading) : Except Stop Reading :=
  match r.pending with
  | none => .ok r
  | some (kind, values) => { r with pending := none }.record kind values

/-- Reads an option whose value, if there is one here, is attached to it. -/
def readOption (r : Reading) (kind : OptionKind) (attached : Option Text) :
    Except Stop Reading := do
  let r ← r.settle
  match kind.takes, attached with
  | .nothing, some _ | .stop _, some _ => throw (.usage (.unexpectedValue kind.long))
  | .nothing, none | .stop _, none => r.record kind []
  | _, some value => r.record kind [value]
  | _, none => return { r with pending := some (kind, []) }

/-- Reads the short options of one argument. -/
def readShort (command : CommandKind) (argument : Text) (r : Reading) :
    Text → Except Stop Reading
  | [] => .ok r
  | c :: cs =>
    match command.options.find? (·.short = some c) with
    | none => .error (.usage (.unknownOption argument))
    | some kind =>
      match kind.takes, cs with
      | .nothing, _ | .stop _, _ => do (← r.readOption kind none).readShort command argument cs
      | _, [] => r.readOption kind none
      | _, '=' :: value | _, value => r.readOption kind (some value)

/-- Reads an operand; it may not be empty. -/
def readOperand (command : CommandKind) (r : Reading) (value : Text) : Except Stop Reading :=
  match command.operands[(operandsGiven r.given).length]? with
  | none => .error (.usage (.unexpectedOperand value))
  | some name =>
    if value = [] then .error (.usage (.emptyValue name))
    else .ok { r with given := r.given ++ [.operand value] }

/-- Reads an argument that is no option. -/
def readValue (command : CommandKind) (r : Reading) (value : Text) : Except Stop Reading :=
  match r.pending with
  | some (kind, values) =>
    let r := { r with pending := some (kind, values ++ [value]) }
    if kind.takes = .oneOrMore then .ok r else r.settle
  | none => r.readOperand command value

/-- Reads an argument. -/
def step (command : CommandKind) (r : Reading) (argument : Text) : Except Stop Reading :=
  if r.isEscaped then r.readOperand command argument
  else match argument with
    | ['-', '-'] => do return { ← r.settle with isEscaped := true }
    | '-' :: '-' :: cs =>
      let name := cs.takeWhile (· ≠ '=')
      match command.options.find? (·.long.toList = name), cs.dropWhile (· ≠ '=') with
      | none, _ => .error (.usage (.unknownOption argument))
      | some kind, [] => r.readOption kind none
      | some kind, _ :: value => r.readOption kind (some value)
    | '-' :: c :: cs => r.readShort command argument (c :: cs)
    | value => r.readValue command value

end Reading

/-- Reads the arguments of a command. -/
def read (command : CommandKind) (arguments : List Text) : Except Stop (List Given) := do
  let given := (← (← arguments.foldlM (Reading.step command) .empty).settle).given
  match command.operands[(operandsGiven given).length]? with
  | some name => throw (.usage (.missingOperand name))
  | none => return given

/-- All values of an option, in order. -/
def valuesGiven (long : String) (given : List Given) : List Text :=
  given.flatMap fun
    | .option name values => if name = long then values else []
    | .operand _ => []

/-- The last value of an option. -/
def valueGiven? (long : String) (given : List Given) : Option Text :=
  (valuesGiven long given).getLast?

/-- Whether an option was given. -/
def isGiven (long : String) (given : List Given) : Bool := timesGiven long given ≠ 0

end DualModule.CommandLine
