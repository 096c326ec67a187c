import DualModule.Ordered
import DualModule.Script.Arithmetic
import DualModule.Script.Printing
/-!
# Programs that print

The utilities that print what they are given, or a part of it: the content of files, the names in
directories, and numbers.

## Main Definitions

* `Script.concatenate`, `Script.printPart`, `Script.count`
* `Script.listNames`
* `Script.countUp`, `Script.compute`
-/

namespace DualModule.Script

/-- A utility's complaint, after which its status is 1. -/
def refuse (message : Text) : Action Unit := do
  complain message
  finish 1

/-- A name as it is written in complaints. -/
def inQuotationMarks (name : Text) : Text := '\'' :: name ++ ['\'']

/-! ### Content -/

/-- What a name stands for: the content of a file, or for `-` the input. -/
def contentOf (s : Shell) (name : Text) : Except SystemError Text :=
  if name = ['-'] then .ok s.input
  else if name = "/dev/null".toList then .ok []
  else ofBytes <$> s.tree.read s.here (pathOf name)

/-- Prints something of what each name stands for, or of the input if there are no names.
`complaint` says of a name that it stands for nothing. -/
def printOf (complaint : Text → Text) (part : Text → Text) (names : List Text) : Action Unit :=
  (if names.isEmpty then [['-']] else names).forM fun name => do
    match contentOf (← get) name with
    | .ok content => emit 1 (part content)
    | .error cause => refuse (complaint name ++ ": ".toList ++ cause.reason.toList)

/-- Prints the content of files. -/
def concatenate : List Text → Action Unit := printOf ("cat: ".toList ++ ·) id

/-- The first lines of a text. -/
def firstLines (count : Nat) (text : Text) : Text :=
  let lines := pieces '\n' text
  if lines.length ≤ count then text else (lines.take count).flatMap (· ++ ['\n'])

/-- The last lines of a text. -/
def lastLines (count : Nat) (text : Text) : Text :=
  let lines := pieces '\n' text
  let count := if text.getLast? = some '\n' then count + 1 else count
  joinPieces '\n' (lines.drop (lines.length - count))

/-- How much is asked for, whether that counts characters rather than lines, and the other
arguments. -/
def amountOf : List Text → Nat × Bool × List Text
  | ['-', 'n'] :: amount :: rest => (Nat.ofDigitChars 10 amount 0, false, rest)
  | ['-', 'c'] :: amount :: rest => (Nat.ofDigitChars 10 amount 0, true, rest)
  | ('-' :: 'n' :: amount) :: rest => (Nat.ofDigitChars 10 amount 0, false, rest)
  | ('-' :: 'c' :: amount) :: rest => (Nat.ofDigitChars 10 amount 0, true, rest)
  | ('-' :: c :: amount) :: rest => (Nat.ofDigitChars 10 (c :: amount) 0, false, rest)
  | rest => (10, false, rest)

/-- Prints the front or the end of what names stand for. -/
def printPart (program : String) (isFront : Bool) (arguments : List Text) : Action Unit :=
  let (amount, isCharacters, names) := amountOf arguments
  let part (text : Text) : Text :=
    match isFront, isCharacters with
    | true, true => text.take amount
    | true, false => firstLines amount text
    | false, true => text.drop (text.length - amount)
    | false, false => lastLines amount text
  printOf (fun name =>
    program.toList ++ ": cannot open ".toList ++ inQuotationMarks name ++ " for reading".toList)
    part names

/-- Prints how many lines or characters there are. -/
def count (arguments : List Text) : Action Unit := do
  let names := arguments.filter (·.head? ≠ some '-')
  let amount (text : Text) : Nat :=
    if arguments.contains ['-', 'l'] then text.count '\n' else text.length
  let name := match names with
    | [name] => ' ' :: name
    | _ => []
  printOf ("wc: ".toList ++ ·) (fun text => (toString (amount text)).toList ++ name ++ ['\n']) names

/-! ### Names -/

/-- The names in a directory, in order; those that begin with a dot only if asked for. -/
def namesInside (s : Shell) (withDots : Bool) (directory : Text) : Except SystemError (List Text) :=
  (s.tree.list s.here (pathOf directory)).map fun entries =>
    let names := (entries.map fun (n, _) => ofBytes n.bytes).filter fun name =>
      withDots || name.head? ≠ some '.'
    ordered (fun a b => (compare (toBytes a) (toBytes b)).isLE) names

/-- Prints the names of files, and the names in directories. -/
def listNames (arguments : List Text) : Action Unit := do
  let options := (arguments.filter (·.head? = some '-')).flatten
  let names := arguments.filter (·.head? ≠ some '-')
  let names := if names.isEmpty then [['.']] else names
  let withDots := 'a' ∈ options || 'A' ∈ options
  let s ← get
  let isPlain (name : Text) : Bool :=
    (s.tree.locate s.here (pathOf name) false).isOk &&
      ('d' ∈ options || !s.tree.namesDirectory s.here (pathOf name))
  for name in names do
    if let .error cause := s.tree.locate s.here (pathOf name) false then
      complain ("ls: cannot access ".toList ++ inQuotationMarks name ++ ": ".toList ++
        cause.reason.toList)
      finish 2
  let plain := names.filter isPlain
  for name in plain do emit 1 (name ++ ['\n'])
  let mut isFirst := plain.isEmpty
  for name in names.filter (!isPlain ·) do
    if let .ok inside := namesInside s withDots name then
      if 1 < names.length then
        emit 1 ((if isFirst then [] else ['\n']) ++ name ++ [':', '\n'])
      let inside := if 'a' ∈ options then ['.'] :: ['.', '.'] :: inside else inside
      emit 1 (inside.flatMap (· ++ ['\n']))
      isFirst := false

/-! ### Numbers -/

/-- Numbers from one to another, in steps; `budget` bounds how many. -/
def numbersFrom (budget : Nat) (number step last : Int) : List Int :=
  match budget with
  | 0 => []
  | budget + 1 =>
    if (if 0 ≤ step then number ≤ last else last ≤ number) then
      number :: numbersFrom budget (number + step) step last
    else []

/-- Prints numbers up to one, or from one to another. -/
def countUp (arguments : List Text) : Action Unit :=
  let (first, step, last) : Int × Int × Int := match arguments.map numberOf with
    | [last] => (1, 1, last)
    | [first, last] => (first, 1, last)
    | [first, step, last] => (first, step, last)
    | _ => (1, 1, 0)
  let numbers := numbersFrom ((last - first).natAbs + 1) first step last
  emit 1 (numbers.flatMap fun n => (toString n).toList ++ ['\n'])

/-- Prints what an operator makes of two numbers; the status says whether that is zero. -/
def compute : List Text → Action Unit
  | [a, operator, b] => do
    let isNumber (text : Text) : Bool :=
      let digits := if text.head? = some '-' then text.tail else text
      !digits.isEmpty && digits.all Char.isDigit
    let result := match String.ofList operator with
      | "=" => some (if a = b then 1 else 0)
      | operator =>
        if isNumber a ∧ isNumber b then
          (Formula.operate operator (.ofInt (numberOf a)) (.ofInt (numberOf b))).toOption
        else none
    match result with
    | some n =>
      emit 1 ((toString n.toInt).toList ++ ['\n'])
      finish (if n = 0 then 1 else 0)
    | none =>
      complain ("expr: ".toList ++
        (if isNumber a ∧ isNumber b then "division by zero" else "non-integer argument").toList)
      finish 2
  | [a] => do
    emit 1 (a ++ ['\n'])
    finish (if a = [] ∨ a = ['0'] then 1 else 0)
  | _ => do
    complain "expr: syntax error".toList
    finish 2

end DualModule.Script
