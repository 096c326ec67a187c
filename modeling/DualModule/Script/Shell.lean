import DualModule.FileTree.Operations
import DualModule.Script.Command
/-!
# The state of a running script

What a script can see and change while it runs: the file tree, its variables and arguments, and
where its streams go.

**Actions leave early for a reason.**  `exit`, a signal, `return`, `break` and `continue` all end
what is being done; the enclosing construct that is meant catches the reason, every other one
passes it on.  What happened before stays.

## Main Definitions

* `Script.Sink`, `Script.Shell`
* `Script.Leave`, `Script.Action`
* `Script.emit`, `Script.isolated`, `Script.captured`, `Script.overEach`
-/

namespace DualModule.Script

/-- Where what is written to a stream goes. -/
inductive Sink where
  | output
  | errors
  | file (l : Location)
  | nowhere

/-- The state of a running script. -/
structure Shell where
  tree : FileTree
  here : Location
  /-- the script's own name -/
  name : Text
  /-- the line that is being run -/
  line : Nat
  arguments : List Text
  /-- the values of variables -/
  bindings : List (Text × Text)
  functions : List (Text × Command)
  /-- the values that variables have outside the function that is being run -/
  shadowed : List (Text × Option Text)
  /-- how the last command ended -/
  status : Nat
  /-- the letters of the modes that are switched on -/
  modes : Text
  /-- what is to be done before the script ends -/
  farewell : Text
  /-- the number of the process that runs the script -/
  process : Nat
  streams : List (Nat × Sink)
  /-- what can still be read -/
  input : Text
  /-- what has been printed, the last first -/
  output : List Text
  /-- what has been complained about, the last first -/
  errors : List Text

/-- Why a script does not go on with the next command. -/
inductive Leave where
  | exit (status : Nat)
  /-- a process is ended by a signal -/
  | killed (process signal : Nat)
  | function
  /-- out of so many loops -/
  | loops (count : Nat)
  /-- to the next round of the loop that is so many loops out -/
  | round (count : Nat)

/-- What a script does. -/
abbrev Action (α : Type) := ExceptT Leave (StateM Shell) α

/-- How an action ends, as a value. -/
def ending {α : Type} (action : Action α) : Action (Except Leave α) :=
  ExceptT.lift action.run

/-- Records how a command ended. -/
def finish (status : Nat) : Action Unit := modify ({ · with status })

/-- Where a stream goes. -/
def Shell.sink (s : Shell) (stream : Nat) : Sink := (s.streams.lookup stream).getD .nowhere

/-- Sends a stream somewhere. -/
def Shell.connect (s : Shell) (stream : Nat) (sink : Sink) : Shell :=
  { s with streams := (stream, sink) :: s.streams.filter (·.1 ≠ stream) }

/-- The tree with text added to the end of a file. -/
def append (t : FileTree) (l : Location) (text : Text) : FileTree :=
  match t.get? l with
  | some (.file content executable) => t.overwrite l (content ++ toBytes text) executable
  | _ => t

/-- Writes to a stream. -/
def emit (stream : Nat) (text : Text) : Action Unit :=
  modify fun s =>
    match s.sink stream with
    | .output => { s with output := text :: s.output }
    | .errors => { s with errors := text :: s.errors }
    | .file l => { s with tree := append s.tree l text }
    | .nowhere => s

/-- Complains, as a program does. -/
def complain (message : Text) : Action Unit := emit 2 (message ++ ['\n'])

/-- Complains in the name of the script. -/
def complainHere (message : Text) : Action Unit := do
  let s ← get
  complain (s.name ++ ": ".toList ++ (toString s.line).toList ++ ": ".toList ++ message)

/-- Runs an action in a copy of the shell, of which only what happened to files and streams is
kept, and how it ended. -/
def isolated (action : Action Unit) : Action Unit := do
  let outer ← get
  let reason ← ending action
  modify fun inner =>
    { outer with
      tree := inner.tree, input := inner.input, output := inner.output, errors := inner.errors
      status := match reason with
        | .error (.exit status) => status
        | _ => inner.status }
  match reason with
  | .error (.killed process signal) => throw (.killed process signal)
  | _ => pure ()

/-- Runs an action in a copy of the shell and takes what it prints. -/
def captured (action : Action Unit) : Action Text := do
  let outer ← get
  set { outer.connect 1 .output with output := [] }
  isolated action
  let printed := (← get).output.reverse.flatten
  modify ({ · with output := outer.output, streams := outer.streams })
  return printed

/-- Runs the body of a loop: whether the loop goes on. -/
def inLoop (body : Action Unit) : Action Bool := do
  match ← ending body with
  | .ok () | .error (.round 0) => return true
  | .error (.loops 0) => return false
  | .error (.loops (n + 1)) => throw (.loops n)
  | .error (.round (n + 1)) => throw (.round n)
  | .error reason => throw reason

/-- Runs the body of a loop for each value. -/
def overEach (body : Text → Action Unit) : List Text → Action Unit
  | [] => pure ()
  | value :: values => do if ← inLoop (body value) then overEach body values

/-- The value of a variable. -/
def Shell.lookup (s : Shell) (name : Text) : Option Text := s.bindings.lookup name

/-- Gives a variable a value. -/
def Shell.assign (s : Shell) (name value : Text) : Shell :=
  { s with bindings := (name, value) :: s.bindings.filter (·.1 ≠ name) }

/-- Gives variables back the values that they had. -/
def Shell.restore (s : Shell) (values : List (Text × Option Text)) : Shell :=
  values.foldl (fun s (name, value) =>
    match value with
    | some value => s.assign name value
    | none => { s with bindings := s.bindings.filter (·.1 ≠ name) }) s

/-- Whether a command that fails ends the script. -/
def Shell.isStrict (s : Shell) : Bool := 'e' ∈ s.modes

/-- Whether only variables that have a value may be used. -/
def Shell.refusesUnset (s : Shell) : Bool := 'u' ∈ s.modes

/-- The characters at which values are split. -/
def Shell.separators (s : Shell) : Text := (s.lookup "IFS".toList).getD [' ', '\t', '\n']

/-- The number of the process that a script runs in, if no script has started it. -/
def firstProcess : Nat := 4242

/-- The path that text spells. -/
def pathOf (text : Text) : Path := ⟨toBytes text⟩

end DualModule.Script
