import DualModule.Pieces
import DualModule.Utf8
/-!
# Words of a script

Generators may be scripts in the command language of the system's shell.  A script is made of words
and operators.  A word is not yet a value: it is a list of pieces, some of which stand for
themselves and some for values that are known only when the script runs.

**Quoting is kept.**  Whether a character was quoted decides later whether it may split a word or
match other characters.

**Bytes as characters.**  A script works on bytes; inside this folder a byte is the character with
that code, so that the characters that mean something can be written as such.

## Main Definitions

* `Script.ofBytes`, `Script.toBytes`
* `Script.Piece`, `Script.Token`
* `Script.tokens`: the tokens of a script
-/

namespace DualModule.Script

/-- Bytes as characters with the same codes. -/
def ofBytes (bytes : Bytes) : Text := bytes.map fun b => Char.ofNat b.toNat

/-- Characters with codes below 256 as bytes. -/
def toBytes (text : Text) : Bytes := text.map fun c => .ofNat c.toNat

/-- A part of a word. -/
inductive Piece where
  /-- a character that was not quoted -/
  | bare (c : Char)
  /-- a character that was quoted -/
  | quoted (c : Char)
  /-- a pair of quotes: there is a word even if nothing is in it -/
  | quotes
  /-- the value of a parameter, perhaps changed by a rule with a word of its own -/
  | parameter (name : Text) (rule : Text) (operand : List Piece) (inQuotes : Bool)
  /-- the number of characters of a parameter's value -/
  | length (name : Text) (inQuotes : Bool)
  /-- what a script prints -/
  | output (script : Text) (inQuotes : Bool)
  /-- the value of a formula -/
  | arithmetic (formula : List Piece) (inQuotes : Bool)

/-- Whether a character may begin a name. -/
def isNameStart (c : Char) : Bool := c.isAlpha || c = '_'

/-- Whether a character may be part of a name. -/
def isNameChar (c : Char) : Bool := c.isAlphanum || c = '_'

/-- Whether a character is a parameter of its own. -/
def isSpecialParameter (c : Char) : Bool := c ∈ ['@', '*', '#', '?', '$', '!', '-']

/-- The text up to the parenthesis that closes one already open, and what follows it.  `depth`
counts the parentheses opened since, and `quote` is the quote in which the text stands. -/
def splitParenthesis (depth : Nat) (quote : Option Char) : Text → Text × Text
  | [] => ([], [])
  | c :: cs =>
    match c, quote, cs with
    | '\\', none, d :: cs | '\\', some '"', d :: cs =>
      (splitParenthesis depth quote cs).map (fun rest => '\\' :: d :: rest) id
    | c, some q, cs =>
      (splitParenthesis depth (if c = q then none else quote) cs).map (c :: ·) id
    | ')', none, cs =>
      match depth with
      | 0 => ([], cs)
      | depth + 1 => (splitParenthesis depth quote cs).map (')' :: ·) id
    | c, none, cs =>
      let depth := if c = '(' then depth + 1 else depth
      let quote := if c = '\'' ∨ c = '"' then some c else none
      (splitParenthesis depth quote cs).map (c :: ·) id

/-- The text of a formula, if what stands in parentheses stands in a second pair of them. -/
def formulaText? : Text → Option Text
  | '(' :: cs => if cs.getLast? = some ')' then some cs.dropLast else none
  | _ => none

/-- The rules by which a parameter's value can be changed, longest first. -/
def parameterRules : List Text :=
  [":-", ":=", ":+", ":?", "##", "%%", "-", "=", "+", "?", "#", "%"].map String.toList

/-- The name at the front of `${…}`, behind the brace. -/
def bracedName (text : Text) : Text × Text :=
  match text with
  | c :: cs =>
    if isNameStart c then (text.takeWhile isNameChar, text.dropWhile isNameChar)
    else if c.isDigit then (text.takeWhile Char.isDigit, text.dropWhile Char.isDigit)
    else if isSpecialParameter c then ([c], cs)
    else ([], text)
  | [] => ([], [])

/-- Whether a character ends a word. -/
def endsWord (c : Char) : Bool := c ∈ [' ', '\t', '\n', ';', '&', '|', '<', '>', '(', ')']

mutual

/-- Reads pieces up to a character that `ends` them and is not quoted; `budget` bounds the number
of steps. -/
def readPieces (budget : Nat) (ends : Char → Bool) (text : Text) : List Piece × Text :=
  match budget, text with
  | 0, _ | _, [] => ([], [])
  | budget + 1, c :: cs =>
    if ends c then ([], text)
    else match c, cs with
      | '\'', cs =>
        let inside := (cs.takeWhile (· ≠ '\'')).map Piece.quoted
        (readPieces budget ends (cs.dropWhile (· ≠ '\'')).tail).map
          (fun rest => .quotes :: inside ++ rest) id
      | '"', cs =>
        let (inside, rest) := readQuoted budget false cs
        (readPieces budget ends rest).map (fun rest => .quotes :: inside ++ rest) id
      | '\\', '\n' :: cs => readPieces budget ends cs
      | '\\', c :: cs => (readPieces budget ends cs).map (.quoted c :: ·) id
      | '$', cs =>
        let (piece, rest) := readDollar budget false cs
        (readPieces budget ends rest).map (piece :: ·) id
      | '\x60', cs =>
        (readPieces budget ends (cs.dropWhile (· ≠ '\x60')).tail).map
          (.output (cs.takeWhile (· ≠ '\x60')) false :: ·) id
      | c, cs => (readPieces budget ends cs).map (.bare c :: ·) id

/-- Reads pieces up to the closing double quote, and what follows it.  In a document, double quotes
stand for themselves. -/
def readQuoted (budget : Nat) (isDocument : Bool) (text : Text) : List Piece × Text :=
  match budget, text with
  | 0, _ | _, [] => ([], [])
  | budget + 1, '"' :: cs =>
    if isDocument then (readQuoted budget isDocument cs).map (.quoted '"' :: ·) id else ([], cs)
  | budget + 1, '\\' :: c :: cs =>
    if c = '\n' then readQuoted budget isDocument cs
    else if c ∈ ['$', '\x60', '\\'] ∨ c = '"' ∧ !isDocument then
      (readQuoted budget isDocument cs).map (.quoted c :: ·) id
    else
      (readQuoted budget isDocument cs).map (fun rest => .quoted '\\' :: .quoted c :: rest) id
  | budget + 1, '$' :: cs =>
    let (piece, rest) := readDollar budget true cs
    (readQuoted budget isDocument rest).map (piece :: ·) id
  | budget + 1, '\x60' :: cs =>
    (readQuoted budget isDocument (cs.dropWhile (· ≠ '\x60')).tail).map
      (.output (cs.takeWhile (· ≠ '\x60')) true :: ·) id
  | budget + 1, c :: cs => (readQuoted budget isDocument cs).map (.quoted c :: ·) id

/-- Reads what a dollar sign introduces; by itself it stands for itself. -/
def readDollar (budget : Nat) (inQuotes : Bool) (text : Text) : Piece × Text :=
  match budget, text with
  | 0, _ | _, [] => (.quoted '$', text)
  | budget + 1, '(' :: cs =>
    let (script, rest) := splitParenthesis 0 none cs
    match formulaText? script with
    | some formula => (.arithmetic (readPieces budget (fun _ => false) formula).1 inQuotes, rest)
    | none => (.output script inQuotes, rest)
  | budget + 1, '\x7b' :: cs =>
    match cs with
    | '#' :: c :: rest =>
      if c = '\x7d' then (.parameter ['#'] [] [] inQuotes, rest)
      else
        let (name, rest) := bracedName (c :: rest)
        (.length name inQuotes, (rest.dropWhile (· ≠ '\x7d')).tail)
    | cs =>
      let (name, rest) := bracedName cs
      match rest with
      | '\x7d' :: rest => (.parameter name [] [] inQuotes, rest)
      | rest =>
        let rule := (parameterRules.find? (·.isPrefixOf rest)).getD []
        let (operand, rest) := readPieces budget (· = '\x7d') (rest.drop rule.length)
        (.parameter name rule operand inQuotes, rest.tail)
  | _ + 1, c :: cs =>
    if isNameStart c then
      (.parameter ((c :: cs).takeWhile isNameChar) [] [] inQuotes, (c :: cs).dropWhile isNameChar)
    else if c.isDigit ∨ isSpecialParameter c then (.parameter [c] [] [] inQuotes, cs)
    else (.quoted '$', c :: cs)

end

/-- A token of a script, with the line on which it stands where that matters. -/
inductive Token where
  | word (line : Nat) (pieces : List Piece)
  | operator (text : Text)
  /-- where a stream is to go; a word follows -/
  | redirect (stream : Nat) (text : Text)

/-- The operators that are not redirections, longest first. -/
def operators : List Text :=
  [";;", "&&", "||", ";", "&", "|", "(", ")", "\n"].map String.toList

/-- The redirections, longest first. -/
def redirections : List Text :=
  ["<<-", "<<", ">>", ">&", ">|", "<&", ">", "<"].map String.toList

/-- The redirection by which a document in the script is read. -/
def documentRedirection : Text := ['<', '<']

/-- The character of a piece that is one. -/
def Piece.character? : Piece → Option Char
  | .bare c | .quoted c => some c
  | _ => none

/-- A document at the front of a text, up to the line that closes it; what follows that line; and
how many lines that makes.  Tabs in front of lines may not count. -/
def splitDocument (closing : Text) (dropsTabs : Bool) (text : Text) : Text × Text × Nat :=
  let lines := (DualModule.pieces '\n' text).map fun line =>
    if dropsTabs then line.dropWhile (· = '\t') else line
  let inside := lines.takeWhile (· ≠ closing)
  let inside := if inside.length = lines.length ∧ inside.getLast? = some [] then inside.dropLast
    else inside
  let rest := (DualModule.pieces '\n' text).drop (inside.length + 1)
  (inside.flatMap (· ++ ['\n']), joinPieces '\n' rest, inside.length + 1)

/-- Reads the tokens of a script from the line numbered `line`, at the end of which so many lines
are `passed`; `budget` bounds the number of tokens. -/
def tokensFrom (budget line passed : Nat) (text : Text) : List Token :=
  match budget, text with
  | 0, _ | _, [] => []
  | budget + 1, c :: cs =>
    if c = ' ' ∨ c = '\t' then tokensFrom budget line passed cs
    else if c = '#' then tokensFrom budget line passed (cs.dropWhile (· ≠ '\n'))
    else if c = '\\' ∧ cs.head? = some '\n' then tokensFrom budget (line + 1) passed cs.tail
    else
      let digits := text.takeWhile Char.isDigit
      let afterDigits := text.dropWhile Char.isDigit
      match redirections.find? (·.isPrefixOf afterDigits),
          operators.find? (·.isPrefixOf text) with
      | some r, _ =>
        let stream := if digits.isEmpty then (if r.head? = some '<' then 0 else 1)
          else Nat.ofDigitChars 10 digits 0
        let rest := afterDigits.drop r.length
        if documentRedirection.isPrefixOf r then
          let rest := rest.dropWhile (· ∈ [' ', '\t'])
          let (closing, rest) := readPieces (2 * rest.length + 2) endsWord rest
          let isPlain := closing.all fun
            | .bare _ => true
            | _ => false
          let (document, below, count) := splitDocument (closing.filterMap Piece.character?)
            (r.getLast? = some '-') (rest.dropWhile (· ≠ '\n')).tail
          let target := if isPlain then (readQuoted (2 * document.length + 2) true document).1
            else document.map .quoted
          .redirect stream documentRedirection :: .word line target ::
            tokensFrom budget line (passed + count) (rest.takeWhile (· ≠ '\n') ++ '\n' :: below)
        else .redirect stream r :: tokensFrom budget line passed rest
      | none, some o =>
        if o = ['\n'] then .operator o :: tokensFrom budget (line + 1 + passed) 0 cs
        else .operator o :: tokensFrom budget line passed (text.drop o.length)
      | none, none =>
        let (pieces, rest) := readPieces (2 * text.length + 2) endsWord text
        let lines := (text.take (text.length - rest.length)).count '\n'
        .word line pieces :: tokensFrom budget (line + lines) passed rest

/-- The tokens of a script. -/
def tokens (script : Text) : List Token := tokensFrom (script.length + 1) 1 0 script

end DualModule.Script
