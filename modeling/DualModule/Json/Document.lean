import DualModule.Utf8
/-!
# JSON documents

A document is read into a value that is complete up to the first place where the text stops being
JSON; that place becomes part of the value.  Whoever uses the value goes through it from front to
back, and so meets a problem of its own before a defect that comes later in the text, and a defect
before a problem that comes later.

**Two kinds of defect.**  Text may be `malformed`, or `truncated` where more would have been needed.

**Strings and numbers are kept as written.**  A string is a list of characters and of surrogates
that were written as escapes, since only some uses of a string require surrogates to be paired; a
number is its parts.

## Main Definitions

* `Json.Defect`, `Json.Element`, `Json.Number`
* `Json.Value`, `Json.Ending`
* `Json.Value.read`, `Json.Document.read`
-/

namespace DualModule.Json

/-- How text fails to be JSON. -/
inductive Defect where
  | malformed
  | truncated
deriving DecidableEq

/-- One element of a string: a character, or half of one. -/
inductive Element where
  | char (c : Char)
  | surrogate (unit : Nat)
deriving DecidableEq

/-- A number as it is written; the digits of its parts. -/
structure Number where
  negative : Bool
  integer : List Nat
  fraction : Option (List Nat)
  /-- whether the exponent is negative, and its digits -/
  exponent : Option (Bool × List Nat)
deriving DecidableEq

/-- How the elements of an array or the members of an object end. -/
inductive Ending where
  | closed
  /-- with a defect, directly behind a comma or not -/
  | defect (behindComma : Bool) (defect : Defect)
deriving DecidableEq

/-- A JSON value, up to its first defect. -/
inductive Value where
  | null
  | boolean (b : Bool)
  | number (n : Number)
  | string (elements : List Element)
  | array (items : List Value) (ending : Ending)
  | object (members : List (Value × Value)) (ending : Ending)
  /-- a string that does not end, or with something in it that may not be there -/
  | brokenString (elements : List Element) (defect : Defect)
  /-- a number that lacks a digit, perhaps because the text ends -/
  | brokenNumber (atEnd : Bool)
  /-- something that begins like `true` or `false` -/
  | brokenWord (defect : Defect)
  /-- something that begins like `null`, or like no value -/
  | broken (defect : Defect)

/-- Drops the characters that may stand between tokens. -/
def skipBlanks (text : Text) : Text := text.dropWhile (· ∈ [' ', '\n', '\t', '\r'])

/-- The value of a hexadecimal digit. -/
def hexValue? (c : Char) : Option Nat :=
  if '0' ≤ c ∧ c ≤ '9' then some (c.toNat - '0'.toNat)
  else if 'a' ≤ c ∧ c ≤ 'f' then some (c.toNat - 'a'.toNat + 10)
  else if 'A' ≤ c ∧ c ≤ 'F' then some (c.toNat - 'A'.toNat + 10)
  else none

/-- The character that a one-letter escape stands for. -/
def escaped? : Char → Option Char
  | '"' => some '"'
  | '\\' => some '\\'
  | '/' => some '/'
  | 'b' => some '\x08'
  | 'f' => some '\x0c'
  | 'n' => some '\n'
  | 'r' => some '\r'
  | 't' => some '\t'
  | _ => none

/-- The number that four hexadecimal digits stand for. -/
def hexUnit? (digits : Text) : Option Nat :=
  (digits.mapM hexValue?).map (·.foldl (· * 16 + ·) 0)

/-- The defect of a `\u` escape with fewer than four characters behind it: the text ends too early
if these are fewer than four bytes as well. -/
def shortEscapeDefect (text : Text) : Defect :=
  if (Utf8.encode text).length < 4 then .truncated else .malformed

/-- The element that a UTF-16 unit stands for. -/
def Element.ofUnit (n : Nat) : Element :=
  if 0xD800 ≤ n ∧ n ≤ 0xDFFF then .surrogate n else .char (Char.ofNat n)

/-- The rest of a string behind its opening quote: its elements up to the closing quote or a
defect, and what follows. -/
def readString : Text → List Element × Except Defect Text
  | [] | ['\\'] => ([], .error .truncated)
  | '"' :: rest => ([], .ok rest)
  | '\\' :: 'u' :: a :: b :: c :: d :: rest =>
    match hexUnit? [a, b, c, d] with
    | some n => (readString rest).map (.ofUnit n :: ·) id
    | none => ([], .error .malformed)
  | '\\' :: 'u' :: rest => ([], .error (shortEscapeDefect rest))
  | '\\' :: c :: rest =>
    match escaped? c with
    | some e => (readString rest).map (.char e :: ·) id
    | none => ([], .error .malformed)
  | c :: rest =>
    if c < ' ' then ([], .error .malformed)
    else (readString rest).map (.char c :: ·) id

/-- The digits at the front of a text. -/
def takeDigits (text : Text) : List Nat :=
  (text.takeWhile Char.isDigit).map fun c => c.toNat - '0'.toNat

/-- What follows the digits at the front of a text. -/
def dropDigits (text : Text) : Text := text.dropWhile Char.isDigit

/-- The fraction at the front of a text, if a point stands there. -/
def readFraction (text : Text) : Except Bool (Option (List Nat) × Text) :=
  match text with
  | '.' :: rest =>
    if (takeDigits rest).isEmpty then .error rest.isEmpty
    else .ok (some (takeDigits rest), dropDigits rest)
  | _ => .ok (none, text)

/-- The exponent at the front of a text, if there is one. -/
def readExponent (text : Text) : Except Bool (Option (Bool × List Nat) × Text) :=
  match text with
  | c :: rest =>
    if c = 'e' ∨ c = 'E' then
      let negative := rest.head? = some '-'
      let rest := if negative ∨ rest.head? = some '+' then rest.tail else rest
      if (takeDigits rest).isEmpty then .error rest.isEmpty
      else .ok (some (negative, takeDigits rest), dropDigits rest)
    else .ok (none, text)
  | [] => .ok (none, text)

/-- The number at the front of a text; the refusal says whether the text ended where a digit was
needed. -/
def readNumber (text : Text) : Except Bool (Number × Text) := do
  let negative := text.head? = some '-'
  let text := if negative then text.tail else text
  let integer := takeDigits text
  if integer.isEmpty then throw text.isEmpty
  if integer.head? = some 0 ∧ 1 < integer.length then throw false
  let (fraction, text) ← readFraction (dropDigits text)
  let (exponent, text) ← readExponent text
  return (⟨negative, integer, fraction, exponent⟩, text)

/-- Reads a word that stands for a value, and what follows it. -/
def readWord (word text : Text) : Except Defect Text :=
  match word, text with
  | [], text => .ok text
  | _ :: _, [] => .error .truncated
  | w :: ws, c :: cs => if w = c then readWord ws cs else .error .malformed

mutual

/-- Reads the value at the front of a text.  `budget` bounds the number of steps; what follows a
value with a defect is of no interest. -/
def Value.readFrom (budget : Nat) (text : Text) : Value × Text :=
  match budget with
  | 0 => (.broken .malformed, [])
  | budget + 1 =>
    match skipBlanks text with
    | [] => (.broken .truncated, [])
    | '"' :: cs =>
      match readString cs with
      | (elements, .ok rest) => (.string elements, rest)
      | (elements, .error d) => (.brokenString elements d, [])
    | '[' :: cs =>
      match skipBlanks cs with
      | ']' :: rest => (.array [] .closed, rest)
      | [] => (.array [] (.defect false .truncated), [])
      | cs =>
        let (items, ending, rest) := readItems budget cs
        (.array items ending, rest)
    | '{' :: cs =>
      match skipBlanks cs with
      | '}' :: rest => (.object [] .closed, rest)
      | [] => (.object [] (.defect false .truncated), [])
      | cs =>
        let (members, ending, rest) := readMembers budget cs
        (.object members ending, rest)
    | c :: cs =>
      if c = '-' ∨ c.isDigit then
        match readNumber (c :: cs) with
        | .ok (n, rest) => (.number n, rest)
        | .error atEnd => (.brokenNumber atEnd, [])
      else if c = 't' then
        match readWord "rue".toList cs with
        | .ok rest => (.boolean true, rest)
        | .error d => (.brokenWord d, [])
      else if c = 'f' then
        match readWord "alse".toList cs with
        | .ok rest => (.boolean false, rest)
        | .error d => (.brokenWord d, [])
      else if c = 'n' then
        match readWord "ull".toList cs with
        | .ok rest => (.null, rest)
        | .error d => (.broken d, [])
      else (.broken .malformed, [])

/-- Reads the items of an array, of which there is at least one. -/
def readItems (budget : Nat) (text : Text) : List Value × Ending × Text :=
  match budget with
  | 0 => ([], .defect false .malformed, [])
  | budget + 1 =>
    let (item, rest) := Value.readFrom budget text
    match skipBlanks rest with
    | [] => ([item], .defect false .truncated, [])
    | ']' :: rest => ([item], .closed, rest)
    | ',' :: rest =>
      match skipBlanks rest with
      | [] => ([item], .defect true .truncated, [])
      | ']' :: _ => ([item], .defect true .malformed, [])
      | rest =>
        let (items, ending, rest) := readItems budget rest
        (item :: items, ending, rest)
    | _ => ([item], .defect false .malformed, [])

/-- Reads the members of an object, of which there is at least one. -/
def readMembers (budget : Nat) (text : Text) : List (Value × Value) × Ending × Text :=
  match budget with
  | 0 => ([], .defect false .malformed, [])
  | budget + 1 =>
    let (key, rest) := Value.readFrom budget text
    match skipBlanks rest with
    | [] => ([(key, .broken .truncated)], .defect false .truncated, [])
    | ':' :: rest =>
      let (value, rest) := Value.readFrom budget rest
      match skipBlanks rest with
      | [] => ([(key, value)], .defect false .truncated, [])
      | '}' :: rest => ([(key, value)], .closed, rest)
      | ',' :: rest =>
        match skipBlanks rest with
        | [] => ([(key, value)], .defect true .truncated, [])
        | '}' :: _ => ([(key, value)], .defect true .malformed, [])
        | rest =>
          let (members, ending, rest) := readMembers budget rest
          ((key, value) :: members, ending, rest)
      | _ => ([(key, value)], .defect false .malformed, [])
    | _ => ([(key, .broken .malformed)], .defect false .malformed, [])

end

/-- Reads the value at the front of a text, and what follows it.  Every step uses up a character or
goes into a value that begins with one. -/
def Value.read (text : Text) : Value × Text := Value.readFrom (3 * text.length + 3) text

mutual

/-- The first defect in a value of which nothing is used. -/
def Value.defect? : Value → Option Defect
  | .null | .boolean _ | .number _ | .string _ => none
  | .brokenString _ d | .brokenWord d | .broken d => some d
  | .brokenNumber _ => some .malformed
  | .array items ending => (itemsDefect? items).or ending.defect?
  | .object members ending => (membersDefect? members).or ending.defect?

/-- The first defect in a list of items. -/
def itemsDefect? : List Value → Option Defect
  | [] => none
  | v :: vs => v.defect?.or (itemsDefect? vs)

/-- The first defect in a list of members, of which every key has to be a string. -/
def membersDefect? : List (Value × Value) → Option Defect
  | [] => none
  | (key, value) :: ms =>
    match key with
    | .string _ => value.defect?.or (membersDefect? ms)
    | .brokenString _ d => some d
    | _ => some .malformed

/-- The defect at the end of a list. -/
def Ending.defect? : Ending → Option Defect
  | .closed => none
  | .defect _ d => some d

end

end DualModule.Json
