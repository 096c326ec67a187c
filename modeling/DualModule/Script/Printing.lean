import DualModule.Script.Shell
/-!
# Printing in scripts

What `echo` and `printf` print.  Both know escape sequences; `printf` also knows conversions, and
uses its format again as long as arguments are left.

## Main Definitions

* `Script.escaped`: text with its escape sequences resolved
* `Script.formatted`
-/

namespace DualModule.Script

/-- Digits at the front that are octal, at most `count`, and what follows them. -/
def octalDigits (count : Nat) (text : Text) : Text × Text :=
  let digits := (text.take count).takeWhile fun c => '0' ≤ c && c ≤ '7'
  (digits, text.drop digits.length)

/-- The character with an octal code; codes go around at 256. -/
def octalCharacter (digits : Text) : Char := Char.ofNat (Nat.ofDigitChars 8 digits 0 % 256)

/-- The character that an escape sequence of one letter stands for. -/
def escapeLetter? : Char → Option Char
  | 'a' => some '\x07'
  | 'b' => some '\x08'
  | 'f' => some '\x0c'
  | 'n' => some '\n'
  | 'r' => some '\r'
  | 't' => some '\t'
  | 'v' => some '\x0b'
  | '\\' => some '\\'
  | _ => none

/-- Text with its escape sequences resolved, and whether `\c` cut it short.  Octal codes follow a
backslash directly, or behind a zero if `withZero`. -/
def escapedFrom (withZero : Bool) (budget : Nat) (text : Text) : Text × Bool :=
  match budget, text with
  | 0, _ | _, [] => ([], false)
  | budget + 1, '\\' :: 'c' :: cs =>
    if withZero then ([], true)
    else (escapedFrom withZero budget cs).map (fun rest => '\\' :: 'c' :: rest) id
  | budget + 1, '\\' :: c :: cs =>
    let (digits, rest) :=
      if withZero then (if c = '0' then octalDigits 3 cs else ([], cs))
      else octalDigits 3 (c :: cs)
    if withZero ∧ c = '0' ∨ digits ≠ [] then
      (escapedFrom withZero budget rest).map (octalCharacter digits :: ·) id
    else match escapeLetter? c with
      | some e => (escapedFrom withZero budget cs).map (e :: ·) id
      | none => (escapedFrom withZero budget cs).map (fun rest => '\\' :: c :: rest) id
  | budget + 1, c :: cs => (escapedFrom withZero budget cs).map (c :: ·) id

/-- Text with its escape sequences resolved, as an argument, and whether it was cut short. -/
def escaped (text : Text) : Text × Bool := escapedFrom true text.length text

/-- Text filled up with `fill` to a width. -/
def padded (width : Nat) (atEnd : Bool) (fill : Char) (text : Text) : Text :=
  let filling := List.replicate (width - text.length) fill
  if atEnd then text ++ filling else filling ++ text

/-- The number that an argument spells; text that spells none counts as zero. -/
def numberOf (text : Text) : Int :=
  match text with
  | '-' :: cs => -(Nat.ofDigitChars 10 (cs.takeWhile Char.isDigit) 0)
  | cs => Nat.ofDigitChars 10 (cs.takeWhile Char.isDigit) 0

/-- The text of a conversion applied to an argument, and whether printing stops behind it. -/
def converted (flags width precision : Text) (conversion : Char) (argument : Text) :
    Text × Bool :=
  let fit := padded (Nat.ofDigitChars 10 width 0) ('-' ∈ flags)
  let short (text : Text) : Text :=
    match precision with
    | [] => text
    | _ :: digits => text.take (Nat.ofDigitChars 10 digits 0)
  let digits (base : Nat) : Text := Nat.toDigits base (numberOf argument).toNat
  let number := if '0' ∈ flags then padded (Nat.ofDigitChars 10 width 0) false '0' else fit ' '
  match conversion with
  | 's' => (fit ' ' (short argument), false)
  | 'b' =>
    let (text, isCut) := escaped argument
    (fit ' ' (short text), isCut)
  | 'c' => (fit ' ' (argument.take 1), false)
  | 'd' | 'i' => (number (toString (numberOf argument)).toList, false)
  | 'u' => (number (digits 10), false)
  | 'o' => (number (digits 8), false)
  | 'x' => (number (digits 16), false)
  | 'X' => (number ((digits 16).map Char.toUpper), false)
  | c => ([c], false)

/-- Goes through a format once: what is printed, the arguments that are left, and whether printing
stops here. -/
def formattedOnce (budget : Nat) (format : Text) (arguments : List Text) :
    Text × List Text × Bool :=
  match budget, format with
  | 0, _ | _, [] => ([], arguments, false)
  | budget + 1, '%' :: '%' :: cs =>
    let (text, left, isCut) := formattedOnce budget cs arguments
    ('%' :: text, left, isCut)
  | budget + 1, '%' :: cs =>
    let flags := cs.takeWhile (· ∈ ['-', '0', '+', ' ', '#'])
    let cs := cs.drop flags.length
    let width := cs.takeWhile Char.isDigit
    let cs := cs.drop width.length
    let precision := if cs.head? = some '.' then '.' :: cs.tail.takeWhile Char.isDigit else []
    match cs.drop precision.length with
    | conversion :: cs =>
      let (text, isCut) :=
        converted flags width precision conversion (arguments.head?.getD [])
      if isCut then (text, [], true)
      else
        let (more, left, isCut) := formattedOnce budget cs arguments.tail
        (text ++ more, left, isCut)
    | [] => ([], arguments, false)
  | budget + 1, c :: cs =>
    let (text, left, isCut) := formattedOnce budget cs arguments
    (c :: text, left, isCut)

/-- Uses a format until no argument is left; `budget` bounds the number of uses. -/
def formattedFrom (budget : Nat) (format : Text) (arguments : List Text) : Text :=
  match budget with
  | 0 => []
  | budget + 1 =>
    let (text, left, isCut) := formattedOnce format.length format arguments
    if isCut || left.isEmpty || left.length = arguments.length then text
    else text ++ formattedFrom budget format left

/-- What `printf` prints. -/
def formatted (format : Text) (arguments : List Text) : Text :=
  formattedFrom (arguments.length + 1) (escapedFrom false format.length format).1 arguments

/-- What `echo` prints. -/
def echoed (arguments : List Text) : Text :=
  let (isOpen, arguments) := match arguments with
    | ['-', 'n'] :: rest => (true, rest)
    | arguments => (false, arguments)
  let (text, isCut) := escaped (List.intercalate [' '] arguments)
  if isCut || isOpen then text else text ++ ['\n']

end DualModule.Script
