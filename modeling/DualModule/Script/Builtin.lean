import DualModule.ExitStatus
import DualModule.Script.Expansion
import DualModule.Script.Utility
/-!
# Commands of the shell itself

The commands that change the shell in which a script runs, or leave what it is doing: these cannot
be programs of their own.

## Main Definitions

* `Script.builtin?`: the command of a name
-/

namespace DualModule.Script

/-- The status that an argument of a command asks for, or else the `last` one. -/
def statusOf (command : String) (last : Nat) (arguments : List Text) : Action Nat := do
  match arguments with
  | [] => return last
  | word :: _ =>
    if word.isEmpty ∨ !word.all Char.isDigit then
      complainHere (s!"{command}: Illegal number: ".toList ++ word)
      throw (.exit 2)
    return Nat.ofDigitChars 10 word 0 % 256

/-- How many loops an argument means beyond the innermost. -/
def loopCount (arguments : List Text) : Nat :=
  ((arguments.head?.map fun word => Nat.ofDigitChars 10 word 0).getD 1) - 1

/-- The signals that a program ignores unless it asks for them. -/
def isIgnored (signal : Nat) : Bool := signal ∈ [0, 17, 18, 23, 28]

/-- The signal that a number or a name means. -/
def signalOf? (word : Text) : Option Nat :=
  if word ≠ [] ∧ word.all Char.isDigit then
    let number := Nat.ofDigitChars 10 word 0
    if number ≤ 64 then some number else none
  else
    let name := String.ofList word
    signalNumber? (if name.startsWith "SIG" then name else "SIG" ++ name)

/-- Sends a signal; the only programs that can be meant are the script itself and those that have
started it. -/
def send (signal : Nat) (receivers : List Text) : Action Unit := do
  for receiver in receivers do
    let process := Nat.ofDigitChars 10 receiver 0
    if !receiver.all Char.isDigit then
      complainHere ("kill: Illegal number: ".toList ++ receiver)
      finish 2
    else if firstProcess ≤ process ∧ process ≤ (← get).process then
      finish 0
      if !isIgnored signal then throw (.killed process signal)
    else
      complainHere "kill: No such process".toList
      finish 1

/-- Sends the signal that a word means, if it means one. -/
def sendNamed (refusal : Text) (word : Text) (receivers : List Text) : Action Unit := do
  match signalOf? word with
  | some signal => send signal receivers
  | none =>
    complainHere ("kill: ".toList ++ refusal)
    finish 2

/-- Switches modes of the shell on or off. -/
def switch (isOn : Bool) (letters : Text) (s : Shell) : Shell :=
  let others := s.modes.filter (!letters.contains ·)
  { s with modes := if isOn then others ++ letters else others }

/-- Changes modes and arguments of the shell. -/
def setArguments : List Text → Action Unit
  | [] => pure ()
  | ['-', '-'] :: arguments => modify ({ · with arguments })
  | ('-' :: letters) :: rest => do
    modify (switch true letters)
    setArguments rest
  | ('+' :: letters) :: rest => do
    modify (switch false letters)
    setArguments rest
  | arguments => modify ({ · with arguments })

/-- Assigns where a word says `name=value`. -/
def assignWord (word : Text) : Action Unit :=
  let name := word.takeWhile (· ≠ '=')
  if name.length < word.length then modify (·.assign name (word.drop (name.length + 1)))
  else pure ()

/-- Makes variables belong to the function that is being run. -/
def localize (word : Text) : Action Unit := do
  let name := word.takeWhile (· ≠ '=')
  modify fun s => { s with shadowed := (name, s.lookup name) :: s.shadowed }
  assignWord word

/-- The line at the front of a text, what follows it, and whether it ended.  A backslash quotes the
next character, or joins the next line, unless the line is taken as it is. -/
def readLine (isRaw : Bool) : Text → List Mark × Text × Bool
  | [] => ([], [], false)
  | '\n' :: cs => ([], cs, true)
  | ['\\'] => ([⟨'\\', isRaw⟩], [], false)
  | '\\' :: c :: cs =>
    if isRaw then (readLine isRaw (c :: cs)).map (⟨'\\', false⟩ :: ·) id
    else if c = '\n' then readLine isRaw cs
    else (readLine isRaw cs).map (⟨c, true⟩ :: ·) id
  | c :: cs => (readLine isRaw cs).map (⟨c, false⟩ :: ·) id

/-- Spreads a line over variables; the last one takes what is left. -/
def spread (separators : Text) (line : List Mark) : List Text → Action Unit
  | [] => pure ()
  | name :: names => do
    let separates (m : Mark) : Bool := !m.isQuoted && m.char ∈ separators
    let isPadding (m : Mark) : Bool := separates m && isBlank m.char
    let line := line.dropWhile isPadding
    match names with
    | [] =>
      let value := (line.reverse.dropWhile isPadding).reverse
      modify (·.assign name (value.map Mark.char))
    | names =>
      modify (·.assign name ((line.takeWhile (!separates ·)).map Mark.char))
      let rest := (line.dropWhile (!separates ·)).dropWhile isPadding
      spread separators (if (rest.head?.map separates).getD false then rest.tail else rest) names

/-- Goes to a directory. -/
def changeDirectory (directory : Text) : Action Unit := do
  let s ← get
  match s.tree.locate s.here (pathOf directory) true with
  | .ok l =>
    if s.tree.isDirectory l then
      let old := ofBytes s.here.path.bytes
      let new := ofBytes l.path.bytes
      set (({ s with here := l }.assign "PWD".toList new).assign "OLDPWD".toList old)
    else unreachable
  | .error _ => unreachable
where
  unreachable : Action Unit := do
    complainHere ("cd: can't cd to ".toList ++ directory)
    finish 2

/-- The command of the shell that a name means; `last` is how the command before it ended. -/
def builtin? (last : Nat) (name : Text) : Option (List Text → Action Unit) :=
  match String.ofList name with
  | "exit" => some fun arguments => do throw (.exit (← statusOf "exit" last arguments))
  | "return" => some fun arguments => do
    finish (← statusOf "return" last arguments)
    throw .function
  | "break" => some fun arguments => throw (.loops (loopCount arguments))
  | "continue" => some fun arguments => throw (.round (loopCount arguments))
  | "shift" => some fun arguments => do
    let count := (arguments.head?.map fun word => Nat.ofDigitChars 10 word 0).getD 1
    let s ← get
    if s.arguments.length < count then
      complainHere "shift: can't shift that many".toList
      throw (.exit 2)
    set { s with arguments := s.arguments.drop count }
  | "set" => some setArguments
  | "export" | "readonly" => some fun words => words.forM assignWord
  | "local" => some fun words => words.forM localize
  | "unset" => some fun names =>
    modify fun s => { s with
      bindings := s.bindings.filter fun (name, _) => !names.contains name
      functions := s.functions.filter fun (name, _) => !names.contains name }
  | "cd" => some fun
    | [['-']] => do
      changeDirectory (((← get).lookup "OLDPWD".toList).getD ['.'])
      emit 1 (ofBytes (← get).here.path.bytes ++ ['\n'])
    | arguments => changeDirectory (arguments.head?.getD ['/'])
  | "kill" => some fun
    | ['-', 's'] :: name :: receivers =>
      sendNamed ("invalid signal number or name: ".toList ++ name) name receivers
    | ('-' :: name) :: receivers =>
      sendNamed ("Illegal option -".toList ++ name.take 1) name receivers
    | receivers => send 15 receivers
  | "read" => some fun arguments => do
    let s ← get
    let isRaw := arguments.contains ['-', 'r']
    let (line, input, hasEnded) := readLine isRaw s.input
    set { s with input }
    spread s.separators line (arguments.filter (· ≠ ['-', 'r']))
    if !hasEnded then finish 1
  | "trap" => some fun
    | command :: events =>
      if events.any fun event => event = ['0'] ∨ event = "EXIT".toList then
        modify ({ · with farewell := if command = ['-'] then [] else command })
      else pure ()
    | [] => pure ()
  | "umask" | "ulimit" | "wait" | "hash" => some fun _ => pure ()
  | _ => none

end DualModule.Script
