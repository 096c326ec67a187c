import DualModule.Script.Builtin
import DualModule.Script.Executable
import DualModule.Script.Expansion
/-!
# Running scripts

What the commands of a script do.

**Budget.**  A script may loop for ever, so running takes a budget; a script that uses it up is
stopped by the signal for programs that take too long.  Each construct here gets the way to run
smaller commands as an argument, so that only `runCommand` spends the budget.

## Main Definitions

* `Script.connectAll`: redirections
* `Script.Runner`, `Script.runSimple`, `Script.runCommand`
* `Script.launch`: starting a program
-/

namespace DualModule.Script

/-! ### Redirections -/

/-- Wording for a file that could not be opened; that a directory is missing is said of whatever
was to be made in it. -/
def openingReason (isMade : Bool) : SystemError → String
  | .noEntry | .notDirectory => if isMade then "Directory nonexistent" else "No such file"
  | cause => cause.reason

/-- Makes a file ready to be written, and says where it is. -/
def prepareFile (s : Shell) (path : Path) (isExtended : Bool) :
    Except SystemError (FileTree × Location) := do
  let t ← if isExtended ∧ (s.tree.read s.here path).isOk then pure s.tree
    else s.tree.write s.here path []
  return (t, ← t.locate s.here path true)

/-- Connects a stream as a redirection says: whether that was possible. -/
def connectOne (printed : Text → Action Text) (r : Redirection) : Action Bool := do
  let target ← valueOf printed r.target
  let s ← get
  if r.kind.getLast? = some '&' then
    set (s.connect r.stream
      (if target = ['-'] then .nowhere else s.sink (Nat.ofDigitChars 10 target 0)))
    return true
  else if r.kind = documentRedirection then
    set { s with input := target }
    return true
  else if r.kind = ['<'] then
    if target = "/dev/null".toList then
      set { s with input := [] }
      return true
    else match s.tree.read s.here (pathOf target) with
      | .ok content =>
        set { s with input := ofBytes content }
        return true
      | .error cause =>
        complainHere ("cannot open ".toList ++ target ++ ": ".toList ++
          (openingReason false cause).toList)
        return false
  else match String.ofList target with
    | "/dev/null" =>
      set (s.connect r.stream .nowhere)
      return true
    | "/dev/stdout" =>
      set (s.connect r.stream (s.sink 1))
      return true
    | "/dev/stderr" =>
      set (s.connect r.stream (s.sink 2))
      return true
    | _ =>
      match prepareFile s (pathOf target) (r.kind = ['>', '>']) with
      | .ok (tree, l) =>
        set ({ s with tree }.connect r.stream (.file l))
        return true
      | .error cause =>
        complainHere ("cannot create ".toList ++ target ++ ": ".toList ++
          (openingReason true cause).toList)
        return false

/-- Connects streams as redirections say, one after another: whether all could be. -/
def connectAll (printed : Text → Action Text) : List Redirection → Action Bool
  | [] => return true
  | r :: rs => do if ← connectOne printed r then connectAll printed rs else return false

/-- Does something while streams are redirected. -/
def withStreams (printed : Text → Action Text) (redirections : List Redirection)
    (action : Action Unit) : Action Unit := do
  let outer ← get
  let isReady ← connectAll printed redirections
  let reason ← if isReady then ending action else do finish 2; pure (.ok ())
  let isFed := redirections.any fun r => r.kind = ['<'] ∨ r.kind = documentRedirection
  modify fun s =>
    { s with streams := outer.streams, input := if isFed then outer.input else s.input }
  match reason with
  | .ok () => pure ()
  | .error reason => throw reason

/-! ### Commands -/

/-- How parts of a command are run. -/
structure Runner where
  run : Command → Action Unit
  /-- runs a script for what it prints -/
  printed : Text → Action Text
  /-- runs a script in the same shell -/
  evaluate : Text → Action Unit
  /-- starts a program -/
  start : Text → List Text → Action Unit

/-- Whether a piece runs a script. -/
def Piece.isOutput : Piece → Bool
  | .output _ _ => true
  | _ => false

/-- Runs the body of a function with arguments of its own. -/
def callFunction (r : Runner) (body : Command) (arguments : List Text) : Action Unit := do
  let outer ← get
  modify ({ · with arguments, shadowed := [] })
  let reason ← ending (r.run body)
  modify fun s =>
    { s.restore s.shadowed with arguments := outer.arguments, shadowed := outer.shadowed }
  match reason with
  | .ok () | .error .function => pure ()
  | .error reason => throw reason

/-- Runs a script in the same shell. -/
def readIn (r : Runner) (name : Text) : Action Unit := do
  let s ← get
  match s.tree.read s.here (pathOf name) with
  | .ok content => r.evaluate (ofBytes content)
  | .error cause =>
    complainHere (".: cannot open ".toList ++ name ++ ": ".toList ++
      (openingReason false cause).toList)
    throw (.exit 2)

/-- Runs what a name means, with arguments. -/
def call (r : Runner) (name : Text) (arguments : List Text) : Action Unit := do
  let s ← get
  match builtin? s.status name, s.functions.lookup name with
  | some command, _ => do finish 0; command arguments
  | none, some body => callFunction r body arguments
  | none, none =>
    match String.ofList name, arguments with
    | "eval", words => r.evaluate (List.intercalate [' '] words)
    | ".", [file] => readIn r file
    | "exec", program :: arguments => do
      r.start program arguments
      throw (.exit (← get).status)
    | "command", program :: arguments => r.start program arguments
    | _, arguments => r.start name arguments

/-- Assigns the values of words to variables. -/
def assignAll (r : Runner) (assignments : List (Text × List Piece)) : Action Unit :=
  assignments.forM fun (name, word) => do
    let value ← valueOf r.printed word
    modify (·.assign name value)

/-- Whether assignments in front of a command stay when it is done. -/
def changesShell (name : Text) : Bool :=
  [".", ":", "eval", "exec", "exit", "export", "readonly", "return", "set", "shift", "trap",
    "unset"].any (·.toList = name)

/-- Runs a command that is made of words. -/
def runSimple (r : Runner) (line : Nat) (assignments : List (Text × List Piece))
    (words : List (List Piece)) (redirections : List Redirection) : Action Unit := do
  modify ({ · with line })
  match ← valuesOf r.printed words with
  | [] =>
    if !(words ++ assignments.map (·.2)).any (·.any Piece.isOutput) then finish 0
    withStreams r.printed redirections (assignAll r assignments)
  | [['e', 'x', 'e', 'c']] => do
    if !(← connectAll r.printed redirections) then throw (.exit 2)
  | name :: arguments =>
    let s ← get
    let held := assignments.map fun (assigned, _) => (assigned, s.lookup assigned)
    withStreams r.printed redirections do
      assignAll r assignments
      call r name arguments
    if !changesShell name then modify (·.restore held)

/-- Runs commands so that each reads what the one before it prints. -/
def runStages (r : Runner) : List Command → Action Unit
  | [] => pure ()
  | [last] => isolated (r.run last)
  | first :: rest => do
    let text ← captured (r.run first)
    modify ({ · with input := text })
    runStages r rest

/-- The body of the first arm of a choice one of whose patterns matches. -/
def chosen (r : Runner) (value : Text) :
    List (List (List Piece) × List Command) → Action (List Command)
  | [] => return []
  | (patterns, body) :: arms => do
    if ← patterns.anyM fun word => return Glob.matchesName (← patternOf r.printed word) value then
      return body
    else chosen r value arms

/-- Whether the last command succeeded. -/
def succeeded : Action Bool := return (← get).status = 0

/-- Leaves a strict script if the last command failed and nothing tests whether it did. -/
def insist (isTested : Bool) : Action Unit := do
  let s ← get
  if s.isStrict && !isTested && s.status ≠ 0 then throw (.exit s.status)

/-- The letters of the shell's options. -/
def shellOptions : Text := "abcefimnpsuvxCEIV".toList

/-- Does what arguments tell the shell to do: to run the file of a name, or the text behind `-c`. -/
def runShell (runAll : Text → Action Unit) (isText : Bool) : List Text → Action Unit
  | [] => pure ()
  | ('-' :: letter :: letters) :: words => do
    if let some illegal := (letter :: letters).find? (· ∉ shellOptions) then
      complain ((← get).name ++ ": 0: Illegal option -".toList ++ [illegal])
      throw (.exit 2)
    modify (switch true (letter :: letters))
    runShell runAll (isText || 'c' ∈ letter :: letters) words
  | word :: words => do
    let s ← get
    if isText then
      set { s with name := words.head?.getD s.name, arguments := words.tail }
      runAll word
    else match s.tree.read s.here (pathOf word) with
      | .ok content =>
        set { s with name := word, arguments := words }
        runAll (ofBytes content)
      | .error cause =>
        complain (s.name ++ ": 0: cannot open ".toList ++ word ++ ": ".toList ++
          (openingReason false cause).toList)
        throw (.exit 2)

/-- Runs a script and then what it wants to be done before it ends. -/
def withFarewell (runAll : Text → Action Unit) (action : Action Unit) : Action Unit := do
  let reason ← ending action
  let s ← get
  match reason with
  | .error (.killed process signal) => throw (.killed process signal)
  | reason =>
    let status := match reason with
      | .error (.exit status) => status
      | _ => s.status
    set { s with farewell := [], status }
    if !s.farewell.isEmpty then runAll s.farewell
    throw (.exit status)

/-- Starts a program, a script in a shell of its own. -/
def startIn (runAll : Text → Action Unit) (process : Nat) (name : Text) (arguments : List Text) :
    Action Unit := do
  let s ← get
  let fresh := { s with
    name, arguments, process, functions := [], shadowed := [], line := 1, status := 0, modes := []
    farewell := [] }
  match executable s.tree s.here name with
  | .error .badExecutable => isolated do
    -- a file that does not say what runs it is taken for a script
    set fresh
    withFarewell runAll (runShell runAll false (name :: arguments))
  | .error cause =>
    let isMissing := cause = .noEntry ∨ cause = .notDirectory
    complainHere (name ++ ": ".toList ++
      (if isMissing then "not found" else cause.reason).toList)
    finish (if isMissing then 127 else 126)
  | .ok (.utility utility first) =>
    finish 0
    ((utility? utility).getD fun _ => pure ()) (first ++ arguments)
  | .ok .shell => isolated do
    set fresh
    withFarewell runAll (runShell runAll false arguments)
  | .ok (.script options text) => isolated do
    set (switch true options fresh)
    withFarewell runAll (runAll text)

/-- What is said of a program that a signal has ended; of some signals nothing. -/
def obituary? (signal : Nat) : Option String :=
  [(1, "Hangup"), (3, "Quit"), (4, "Illegal instruction"), (5, "Trace/breakpoint trap"),
    (6, "Aborted"), (7, "Bus error"), (8, "Floating point exception"), (9, "Killed"),
    (10, "User defined signal 1"), (11, "Segmentation fault"), (12, "User defined signal 2"),
    (14, "Alarm clock"), (15, "Terminated"), (24, "CPU time limit exceeded")].lookup signal

/-- Starts a program from a script.  A signal that ends the program does not end the script. -/
def startWithin (runAll : Text → Action Unit) (name : Text) (arguments : List Text) :
    Action Unit := do
  let child := (← get).process + 1
  match ← ending (startIn runAll child name arguments) with
  | .ok () => pure ()
  | .error (.killed process signal) =>
    if process = child then
      if let some text := obituary? signal then complain text.toList
      finish (128 + signal)
    else throw (.killed process signal)
  | .error reason => throw reason

/-- Runs all commands of a script. -/
def runScript (run : Command → Action Unit) (script : Text) : Action Unit :=
  match parse? script with
  | some commands => commands.forM run
  | none => do
    complainHere "Syntax error".toList
    throw (.exit 2)

/-- The signal for programs that take too long. -/
def outOfTime : Nat := 24

/-- Runs a command; `isTested` says that something else looks at how it ends. -/
def runCommand (budget : Nat) (isTested : Bool) (command : Command) : Action Unit :=
  match budget with
  | 0 => throw (.killed firstProcess outOfTime)
  | budget + 1 =>
    let run := runCommand budget isTested
    let test := runCommand budget true
    let r : Runner := {
      run
      printed := fun script => captured (runScript (runCommand budget false) script)
      evaluate := runScript run
      start := startWithin (runScript (runCommand budget false)) }
    match command with
    | .simple line assignments words redirections => do
      runSimple r line assignments words redirections
      insist isTested
    | .loop line name words body => do
      modify ({ · with line })
      let values ← match words with
        | some words => valuesOf r.printed words
        | none => pure (← get).arguments
      finish 0
      overEach (fun value => do modify (·.assign name value); body.forM run) values
    | .choose word arms => do
      let value ← valueOf r.printed word
      finish 0
      (← chosen r value arms).forM run
    | .branch condition consequent alternative => do
      condition.forM test
      if ← succeeded then consequent.forM run
      else
        finish 0
        alternative.forM run
    | .repeating untilSuccess condition body => do
      let before := (← get).status
      condition.forM test
      if (← succeeded) ≠ untilSuccess then
        if ← inLoop (body.forM run) then run (.repeating untilSuccess condition body)
      else finish before
    | .group body false => body.forM run
    | .group body true => do
      isolated (body.forM run)
      insist isTested
    | .redirected body redirections => withStreams r.printed redirections (run body)
    | .pipeline negated stages => do
      let inner := if negated then { r with run := test } else r
      let input := (← get).input
      match stages with
      | [command] => inner.run command
      | stages =>
        runStages inner stages
        modify ({ · with input })
      if negated then finish (if (← get).status = 0 then 1 else 0) else insist isTested
    | .joined first ifSucceeded second => do
      test first
      if (← succeeded) = ifSucceeded then run second
    | .function name body => do
      modify fun s => { s with functions := (name, body) :: s.functions }
      finish 0

/-! ### Programs -/

/-- How many commands deep a script may go before it is stopped. -/
def budget : Nat := 100000

/-- The state in which a program starts. -/
def freshShell (t : FileTree) (here : Location) (name : Text) (arguments : List Text) : Shell where
  tree := t
  here := here
  name := name
  line := 1
  arguments := arguments
  bindings := [("PWD".toList, ofBytes here.path.bytes)]
  functions := []
  status := 0
  shadowed := []
  modes := []
  farewell := []
  process := firstProcess
  streams := [(1, .output), (2, .errors)]
  input := []
  output := []
  errors := []

/-- Runs a program to its end: what it leaves behind. -/
def complete (action : Action Unit) (s : Shell) : Completion × FileTree :=
  let (reason, s) := action.run s
  let status := match reason with
    | .error (.exit status) => .code status
    | .error (.killed _ signal) => .signal signal
    | _ => .code s.status
  (⟨status, toBytes s.errors.reverse.flatten⟩, s.tree)

/-- Starts a program and waits for its end. -/
def launch (here : Location) (t : FileTree) (program : Text) (arguments : List Text) :
    Except SystemError Completion × FileTree :=
  let name := ofBytes (Utf8.encode program)
  let words := arguments.map fun argument => ofBytes (Utf8.encode argument)
  if '\x00' ∈ program ∨ arguments.any ('\x00' ∈ ·) then (.error .nulInArgument, t)
  else match executable t here name with
    | .error cause => (.error cause, t)
    | .ok _ =>
      let (completion, u) := complete
        (startIn (runScript (runCommand budget false)) firstProcess name words)
        (freshShell t here name words)
      (.ok completion, u)

end DualModule.Script
