import DualModule.Script.Shell
/-!
# Arithmetic in scripts

A script can compute with whole numbers.  Numbers are words of 64 bits, which go around at the ends
of their range; division is toward zero.

**A formula is read as a whole before anything is computed**, so that a formula that cannot be read
assigns nothing.  Of the two sides of a choice, and of the second side of `&&` and `||`, only what
is needed is computed.

## Main Definitions

* `Script.Formula`, `Script.Formula.parse`
* `Script.Formula.value`: the value of a formula, and the variables afterwards
* `Script.computed`: what a formula in a script becomes
-/

namespace DualModule.Script

/-- What is computed. -/
inductive Formula where
  | number (n : Int64)
  | named (name : Text)
  | unary (operator : Char) (a : Formula)
  | binary (operator : String) (a b : Formula)
  | choice (condition a b : Formula)
  /-- gives a variable a value, to which its old value contributes if there is an operator -/
  | assignment (name : Text) (operator : String) (a : Formula)

/-- Why nothing can be computed. -/
inductive FormulaFault where
  | divisionByZero
  /-- something else stands where this is expected -/
  | expecting (what : String)
  | illegalNumber (text : Text)

/-- A part of the text of a formula. -/
inductive Atom where
  | number (n : Nat)
  | name (name : Text)
  | operator (text : Text)
deriving DecidableEq

/-- The operators of more than one character, longest first. -/
def longOperators : List Text :=
  ["<<=", ">>=", "<<", ">>", "<=", ">=", "==", "!=", "&&", "||", "+=", "-=", "*=", "/=", "%=", "&=",
    "^=", "|="].map String.toList

/-- The value of a digit; letters are digits above nine. -/
def digitValue (c : Char) : Nat :=
  if c.isDigit then c.toNat - '0'.toNat
  else if c.isAlpha then c.toLower.toNat - 'a'.toNat + 10
  else 36

/-- The number at the front of a text that begins with a digit, and what follows it.  A zero in
front makes it octal, `0x` hexadecimal. -/
def readNumber (text : Text) : Nat × Text :=
  let take (base : Nat) (text : Text) : Nat × Text :=
    let isDigit (c : Char) : Bool := digitValue c < base
    ((text.takeWhile isDigit).foldl (· * base + digitValue ·) 0, text.dropWhile isDigit)
  match text with
  | '0' :: x :: cs => if x = 'x' ∨ x = 'X' then take 16 cs else take 8 text
  | text => take 10 text

/-- The atoms of a text; `budget` bounds their number. -/
def atomsFrom (budget : Nat) (text : Text) : List Atom :=
  match budget, text with
  | 0, _ | _, [] => []
  | budget + 1, c :: cs =>
    if c ∈ [' ', '\t', '\n'] then atomsFrom budget cs
    else if c.isDigit then
      let (n, rest) := readNumber (c :: cs)
      .number n :: atomsFrom budget rest
    else if isNameStart c then
      .name ((c :: cs).takeWhile isNameChar) :: atomsFrom budget ((c :: cs).dropWhile isNameChar)
    else
      let text := (longOperators.find? (·.isPrefixOf (c :: cs))).getD [c]
      .operator text :: atomsFrom budget ((c :: cs).drop text.length)

/-- The operators between two formulas, those that bind least first. -/
def precedence : List (List String) :=
  [["||"], ["&&"], ["|"], ["^"], ["&"], ["==", "!="], ["<", "<=", ">", ">="], ["<<", ">>"],
    ["+", "-"], ["*", "/", "%"]]

/-- The operator that an assigning one contains: none for plain assignment. -/
def assigningOperator? (text : Text) : Option String :=
  ["", "*", "/", "%", "+", "-", "<<", ">>", "&", "^", "|"].find? fun operator =>
    text = operator.toList ++ ['=']

/-- What stands at the front, and what follows it. -/
abbrev FormulaReading := Except FormulaFault (Formula × List Atom)

mutual

/-- Reads a formula; `budget` bounds the number of steps. -/
def readFormula (budget : Nat) (atoms : List Atom) : FormulaReading :=
  match budget with
  | 0 => .error (.expecting "primary")
  | budget + 1 =>
    match atoms with
    | .name name :: .operator text :: rest =>
      match assigningOperator? text with
      | some operator => do
        let (a, rest) ← readFormula budget rest
        return (.assignment name operator a, rest)
      | none => readChoice budget atoms
    | atoms => readChoice budget atoms

/-- Reads a formula that assigns nothing outside parentheses. -/
def readChoice (budget : Nat) (atoms : List Atom) : FormulaReading := do
  match budget with
  | 0 => throw (.expecting "primary")
  | budget + 1 =>
    let (condition, atoms) ← readOperation budget precedence atoms
    match atoms with
    | .operator ['?'] :: atoms =>
      let (a, atoms) ← readFormula budget atoms
      match atoms with
      | .operator [':'] :: atoms =>
        let (b, atoms) ← readChoice budget atoms
        return (.choice condition a b, atoms)
      | _ => throw (.expecting "':'")
    | atoms => return (condition, atoms)

/-- Reads a formula whose operators are on these levels. -/
def readOperation (budget : Nat) (levels : List (List String)) (atoms : List Atom) :
    FormulaReading := do
  match budget with
  | 0 => throw (.expecting "primary")
  | budget + 1 =>
    match levels with
    | [] => readSingle budget atoms
    | level :: levels =>
      let (a, atoms) ← readOperation budget levels atoms
      readOperands budget level levels a atoms

/-- Reads what follows the operand `a` on a level. -/
def readOperands (budget : Nat) (level : List String) (levels : List (List String)) (a : Formula)
    (atoms : List Atom) : FormulaReading := do
  match budget with
  | 0 => throw (.expecting "primary")
  | budget + 1 =>
    match atoms with
    | .operator text :: rest =>
      match level.find? (·.toList = text) with
      | some operator =>
        let (b, atoms) ← readOperation budget levels rest
        readOperands budget level levels (.binary operator a b) atoms
      | none => return (a, atoms)
    | atoms => return (a, atoms)

/-- Reads a number, a name, something in parentheses, or one of these behind an operator. -/
def readSingle (budget : Nat) (atoms : List Atom) : FormulaReading := do
  match budget with
  | 0 => throw (.expecting "primary")
  | budget + 1 =>
    match atoms with
    | .number n :: rest => return (.number (.ofNat (min n 0x7FFFFFFFFFFFFFFF)), rest)
    | .name name :: rest => return (.named name, rest)
    | .operator ['('] :: rest =>
      match ← readFormula budget rest with
      | (a, .operator [')'] :: rest) => return (a, rest)
      | _ => throw (.expecting "')'")
    | .operator [c] :: rest =>
      if c ∈ ['-', '+', '!', '~'] then
        let (a, rest) ← readSingle budget rest
        return (.unary c a, rest)
      else throw (.expecting "primary")
    | _ => throw (.expecting "primary")

end

namespace Formula

/-- The formula that a text spells. -/
def parse (text : Text) : Except FormulaFault Formula := do
  let atoms := atomsFrom text.length text
  match ← readFormula (16 * atoms.length + 16) atoms with
  | (formula, []) => return formula
  | _ => throw (.expecting "EOF")

/-- The number that stands for a truth value. -/
def truth (b : Bool) : Int64 := if b then 1 else 0

/-- What an operator between two numbers makes of them. -/
def operate (operator : String) (a b : Int64) : Except FormulaFault Int64 :=
  match operator with
  | "+" => .ok (a + b)
  | "-" => .ok (a - b)
  | "*" => .ok (a * b)
  | "/" => if b = 0 then .error .divisionByZero else .ok (a / b)
  | "%" => if b = 0 then .error .divisionByZero else .ok (a % b)
  | "<<" => .ok (a <<< b)
  | ">>" => .ok (a >>> b)
  | "&" => .ok (a &&& b)
  | "^" => .ok (a ^^^ b)
  | "|" => .ok (a ||| b)
  | "==" => .ok (truth (a = b))
  | "!=" => .ok (truth (a ≠ b))
  | "<" => .ok (truth (a < b))
  | "<=" => .ok (truth (a ≤ b))
  | ">" => .ok (truth (b < a))
  | ">=" => .ok (truth (b ≤ a))
  | _ => .ok b

/-- Variables and their values. -/
abbrev Bindings := List (Text × Text)

/-- The number that the value of a variable spells; a variable without value counts as zero. -/
def numberOfVariable (bindings : Bindings) (name : Text) : Except FormulaFault Int64 :=
  let text := (bindings.lookup name).getD []
  let (isNegative, digits) := match text with
    | '-' :: cs => (true, cs)
    | '+' :: cs => (false, cs)
    | cs => (false, cs)
  if text.isEmpty then .ok 0
  else if (digits.head?.map Char.isDigit).getD false then
    match readNumber digits with
    | (n, []) => .ok (if isNegative then -.ofNat n else .ofNat n)
    | _ => .error (.illegalNumber text)
  else .error (.illegalNumber text)

/-- The value of a formula, and the variables afterwards. -/
def value (bindings : Bindings) : Formula → Except FormulaFault (Int64 × Bindings)
  | number n => .ok (n, bindings)
  | named name => return (← numberOfVariable bindings name, bindings)
  | unary operator a => do
    let (n, bindings) ← a.value bindings
    return (match operator with
      | '-' => -n
      | '!' => truth (n = 0)
      | '~' => ~~~n
      | _ => n, bindings)
  | binary operator a b => do
    let (n, bindings) ← a.value bindings
    if operator = "&&" ∧ n = 0 then return (0, bindings)
    if operator = "||" ∧ n ≠ 0 then return (1, bindings)
    let (m, bindings) ← b.value bindings
    if operator = "&&" ∨ operator = "||" then return (truth (m ≠ 0), bindings)
    return (← operate operator n m, bindings)
  | choice condition a b => do
    let (n, bindings) ← condition.value bindings
    if n = 0 then b.value bindings else a.value bindings
  | assignment name operator a => do
    let (n, bindings) ← a.value bindings
    let n ← if operator.isEmpty then pure n
      else operate operator (← numberOfVariable bindings name) n
    return (n, (name, (toString n.toInt).toList) :: bindings.filter (·.1 ≠ name))

end Formula

/-- The wording of a fault in a formula. -/
def FormulaFault.message (formula : Text) : FormulaFault → Text
  | divisionByZero => "arithmetic expression: division by zero: ".toList ++ '"' :: formula ++ ['"']
  | expecting what =>
    s!"arithmetic expression: expecting {what}: ".toList ++ '"' :: formula ++ ['"']
  | illegalNumber text => "Illegal number: ".toList ++ text

/-- What a formula becomes in a script.  One that has no value ends the script. -/
def computed (formula : Text) : Action Text := do
  match (Formula.parse formula).bind (·.value (← get).bindings) with
  | .ok (n, bindings) =>
    modify ({ · with bindings })
    return (toString n.toInt).toList
  | .error fault =>
    complainHere (fault.message formula)
    throw (.exit 2)

end DualModule.Script
