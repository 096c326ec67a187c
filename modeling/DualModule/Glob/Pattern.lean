import DualModule.Pieces
import DualModule.Utf8
/-!
# Search patterns

A pattern selects paths.  `?` stands for one character, `*` for any number of them, `[…]` for one
character of a set and `[!…]` for one outside it; `**` as a whole component stands for any number
of directories.

**A pattern is read twice.**  First as a whole, so that a set may not be left open and `**` may not
share a component with anything else; then component by component, which is how it is matched.  A
set that contains a separator passes the first reading and fails the second.

**Positions** in errors count characters from the start of what was being read.

## Main Definitions

* `Glob.Token`, `Glob.Token.list`: reading pattern text
* `PatternError`
* `Glob.Part`, `Glob.Pattern`, `Glob.Pattern.parse`
* `Glob.fits`: what it means for a name to match a component; `Glob.matchesName` decides it
-/

namespace DualModule

/-- What is wrong with a pattern. -/
inductive PatternFault where
  | invalidSet
  | recursiveInComponent
  | tooManyStars
deriving DecidableEq

/-- Where a pattern cannot be read, and why. -/
structure PatternError where
  position : Nat
  fault : PatternFault
deriving DecidableEq

/-- The wording of a fault. -/
def PatternFault.message : PatternFault → String
  | invalidSet => "invalid range pattern"
  | recursiveInComponent => "recursive wildcards must form a single path component"
  | tooManyStars => "wildcards are either regular `*` or recursive `**`"

/-- The wording of a pattern error. -/
def PatternError.message (e : PatternError) : String :=
  s!"Pattern syntax error near position {e.position}: {e.fault.message}"

namespace Glob

/-- One element of a character set: the characters from `first` to `last`. -/
structure CharRange where
  first : Char
  last : Char
deriving DecidableEq

/-- Whether a character is in a range. -/
def CharRange.has (r : CharRange) (c : Char) : Bool := r.first ≤ c && c ≤ r.last

/-- The elements of a set, as written between its brackets. -/
def CharRange.list : Text → List CharRange
  | a :: '-' :: b :: cs => ⟨a, b⟩ :: list cs
  | c :: cs => ⟨c, c⟩ :: list cs
  | [] => []

/-- One element of a pattern. -/
inductive Token where
  | literal (c : Char)
  | anyChar
  | anySequence
  | anyOf (set : List CharRange)
  | noneOf (set : List CharRange)
  | recursive
deriving DecidableEq

namespace Token

/-- A set that begins behind its opening bracket: whether it is negated, its elements and what
follows it.  The first element may be a closing bracket. -/
def readSet? : Text → Option (Bool × Text × Text)
  | '!' :: c :: cs =>
    if ']' ∈ cs then
      some (true, c :: cs.takeWhile (· ≠ ']'), (cs.dropWhile (· ≠ ']')).tail)
    else none
  | '!' :: [] => none
  | c :: cs =>
    if ']' ∈ cs then
      some (false, c :: cs.takeWhile (· ≠ ']'), (cs.dropWhile (· ≠ ']')).tail)
    else none
  | [] => none

/-- Reads pattern text that begins at `position`, behind the character `last`; `budget` bounds the
number of tokens. -/
def listFrom (budget position : Nat) (last : Option Char) (text : Text) :
    Except PatternError (List Token) :=
  match budget, text with
  | _, [] | 0, _ => .ok []
  | budget + 1, '?' :: cs => (.anyChar :: ·) <$> listFrom budget (position + 1) (some '?') cs
  | budget + 1, '*' :: cs =>
    let stars := (cs.takeWhile (· = '*')).length + 1
    let rest := cs.dropWhile (· = '*')
    if stars = 1 then (.anySequence :: ·) <$> listFrom budget (position + 1) (some '*') rest
    else if stars = 2 then
      if last = none ∨ last = some '/' then
        match rest with
        | [] => .ok [.recursive]
        | '/' :: rest => (.recursive :: ·) <$> listFrom budget (position + 3) (some '/') rest
        | _ => .error ⟨position + 2, .recursiveInComponent⟩
      else .error ⟨position - 1, .recursiveInComponent⟩
    else .error ⟨position + 2, .tooManyStars⟩
  | budget + 1, '[' :: cs =>
    match readSet? cs with
    | some (negated, set, rest) =>
      let token := if negated then noneOf (CharRange.list set) else anyOf (CharRange.list set)
      (token :: ·) <$> listFrom budget (position + (cs.length - rest.length) + 1) (some ']') rest
    | none => .error ⟨position, .invalidSet⟩
  | budget + 1, c :: cs => (.literal c :: ·) <$> listFrom budget (position + 1) (some c) cs

/-- The elements of pattern text. -/
def list (text : Text) : Except PatternError (List Token) := listFrom text.length 0 none text

/-- Whether an element that stands for one character stands for this one. -/
def admits : Token → Char → Bool
  | literal a, c => a = c
  | anyChar, _ => true
  | anyOf set, c => set.any (·.has c)
  | noneOf set, c => !set.any (·.has c)
  | anySequence, _ | recursive, _ => false

end Token

/-- The ends of a text, the whole text first. -/
def suffixes : Text → List Text
  | [] => [[]]
  | c :: cs => (c :: cs) :: suffixes cs

/-- What it means for a name to match the elements of a component. -/
def fits : List Token → Text → Bool
  | [], name => name.isEmpty
  | .anySequence :: ts, name | .recursive :: ts, name => (suffixes name).any (fits ts)
  | t :: ts, c :: cs => t.admits c && fits ts cs
  | _ :: _, [] => false

/-- Whether something holds at a place or behind it, for each place. -/
def anyBehind : List Bool → List Bool
  | [] => []
  | b :: bs =>
    let later := anyBehind bs
    (b || later.headD false) :: later

/-- Which ends of a name match, the whole name first.  The row of answers for a list of elements
comes from the row for the elements behind the first, so that stars do not multiply the work. -/
def fitsRow (name : Text) : List Token → List Bool
  | [] => name.map (fun _ => false) ++ [true]
  | .anySequence :: ts | .recursive :: ts => anyBehind (fitsRow name ts)
  | t :: ts =>
    List.zipWith (fun c later => t.admits c && later) name (fitsRow name ts).tail ++ [false]

/-- Whether a name matches the elements of a component. -/
def matchesName (tokens : List Token) (name : Text) : Bool := (fitsRow name tokens).headD false

theorem head?_suffixes (name : Text) : (suffixes name).head? = some name := by
  cases name <;> rfl

theorem anyBehind_suffixes (p : Text → Bool) (name : Text) :
    anyBehind ((suffixes name).map p) = (suffixes name).map fun s => (suffixes s).any p := by
  induction name with
  | nil => simp [suffixes, anyBehind]
  | cons c cs ih => simp [suffixes, anyBehind, ih, head?_suffixes]

theorem fitsRow_eq (name : Text) (ts : List Token) :
    fitsRow name ts = (suffixes name).map (fits ts) := by
  induction ts with
  | nil =>
    induction name with
    | nil => rfl
    | cons c cs ih => simp_all [fitsRow, suffixes, fits]
  | cons t ts ih =>
    have sequence : anyBehind (fitsRow name ts) =
        (suffixes name).map fun s => (suffixes s).any (fits ts) := by
      rw [ih, anyBehind_suffixes]
    have single : ∀ name : Text,
        List.zipWith (fun c later => t.admits c && later) name
            ((suffixes name).map (fits ts)).tail ++ [false] =
          (suffixes name).map fun s => match s with
            | [] => false
            | c :: cs => t.admits c && fits ts cs := by
      intro name
      induction name with
      | nil => rfl
      | cons c cs ih => cases cs <;> simp_all [suffixes]
    cases t <;> simp only [fitsRow]
    case anySequence | recursive => simpa only [fits] using sequence
    all_goals
      rw [ih, single]
      refine List.map_congr_left fun s _ => ?_
      cases s <;> rfl

/-- **Matching row by row decides `fits`.** -/
theorem matchesName_eq (ts : List Token) (name : Text) : matchesName ts name = fits ts name := by
  simp [matchesName, fitsRow_eq, head?_suffixes]

/-- One component of a pattern. -/
inductive Part where
  /-- any number of directories -/
  | recursive
  /-- exactly this name, found without reading the directory -/
  | exact (name : Text)
  /-- any entry whose name matches -/
  | among (tokens : List Token)
deriving DecidableEq

/-- The character of a token that stands for itself. -/
def Token.character? : Token → Option Char
  | literal c => some c
  | _ => none

/-- The component that these elements make. -/
def Part.ofTokens (tokens : List Token) : Part :=
  if .recursive ∈ tokens then .recursive
  else match tokens.mapM Token.character? with
    | some name => .exact name
    | none => .among tokens

/-- A search pattern. -/
structure Pattern where
  isAbsolute : Bool
  parts : List Part
  /-- whether only directories are selected -/
  directoriesOnly : Bool
deriving DecidableEq

/-- The components of pattern text; a separator at the end begins no further one. -/
def componentTexts (text : Text) : List Text :=
  let ps := pieces '/' text
  if ps.getLast? = some [] then ps.dropLast else ps

/-- Reads a pattern. -/
def Pattern.parse (text : Text) : Except PatternError Pattern := do
  let _ ← Token.list text
  let isAbsolute := text.head? = some '/'
  let relative := if isAbsolute then text.tail else text
  let parts ← (componentTexts relative).mapM fun piece => Part.ofTokens <$> Token.list piece
  return {
    isAbsolute
    parts := if relative.isEmpty then [.exact []] else parts
    directoriesOnly := text.getLast? = some '/' }

end Glob

end DualModule
