import DualModule.Glob.Pattern
import DualModule.Ordered
import DualModule.Script.Arithmetic
/-!
# From words to values

A word of a script becomes any number of values.  First its parameters and printed parts are put
in; then what came from unquoted parts is split at blanks; last, unquoted wildcards select paths.

**Marks.**  Between these steps a value is a list of characters that still know whether they were
quoted.

## Main Definitions

* `Script.Mark`, `Script.Item`, `Script.fields`
* `Script.itemsOf`: putting values in
* `Script.valuesOf`, `Script.valueOf`, `Script.patternOf`
-/

namespace DualModule.Script

/-- A character that knows whether it was quoted. -/
structure Mark where
  char : Char
  isQuoted : Bool

/-- A part of a word whose values have been put in. -/
inductive Item where
  | mark (m : Mark)
  /-- a separator in an unquoted value -/
  | gap (c : Char)
  /-- the place between two arguments that are quoted together -/
  | between
  /-- quotes: there is a value even if it is empty -/
  | quotes
  /-- no arguments at all, quoted together: there is no value even in quotes -/
  | absent

/-- Whether a character is a blank; blanks next to each other separate only once. -/
def isBlank (c : Char) : Bool := c ∈ [' ', '\t', '\n']

/-- Items that a value becomes, given the characters at which it may be split. -/
def itemsOfValue (separators : Text) (inQuotes : Bool) (value : Text) : List Item :=
  value.map fun c =>
    if !inQuotes ∧ c ∈ separators then .gap c else .mark ⟨c, inQuotes⟩

/-- Collects items into fields.  `marks` are those of the current field, the last one first;
`isPresent` says that there is a field even if it stays empty. -/
def fieldsFrom (marks : List Mark) (isPresent : Bool) : List Item → List (List Mark)
  | [] => if marks.isEmpty && !isPresent then [] else [marks.reverse]
  | .mark m :: items => fieldsFrom (m :: marks) isPresent items
  | .gap c :: items =>
    (if marks.isEmpty && !isPresent && isBlank c then [] else [marks.reverse]) ++
      fieldsFrom [] false items
  | .between :: items => marks.reverse :: fieldsFrom [] true items
  | .quotes :: items => fieldsFrom marks true items
  | .absent :: items => fieldsFrom marks false items

/-- The fields that items make. -/
def fields (items : List Item) : List (List Mark) := fieldsFrom [] false items

/-- The marks of items that are not to be split. -/
def unsplit (items : List Item) : List Mark :=
  items.filterMap fun
    | .mark m => some m
    | .gap c => some ⟨c, true⟩
    | .between => some ⟨' ', true⟩
    | .quotes | .absent => none

/-- The wildcards that marks spell; what is quoted stands for itself. -/
def wildcardsFrom (budget : Nat) (marks : List Mark) : List Glob.Token :=
  match budget, marks with
  | 0, _ | _, [] => []
  | budget + 1, m :: ms =>
    if m.isQuoted then .literal m.char :: wildcardsFrom budget ms
    else match m.char with
      | '*' => .anySequence :: wildcardsFrom budget ms
      | '?' => .anyChar :: wildcardsFrom budget ms
      | '[' =>
        match Glob.Token.readSet? (ms.map Mark.char) with
        | some (isNegated, set, rest) =>
          let token := if isNegated then Glob.Token.noneOf else Glob.Token.anyOf
          token (Glob.CharRange.list set) ::
            wildcardsFrom budget (ms.drop (ms.length - rest.length))
        | none => .literal '[' :: wildcardsFrom budget ms
      | c => .literal c :: wildcardsFrom budget ms

/-- The wildcards that marks spell. -/
def wildcards (marks : List Mark) : List Glob.Token := wildcardsFrom marks.length marks

/-- The shortest or longest part at the front that matches, taken away. -/
def withoutFront (tokens : List Glob.Token) (longest : Bool) (value : Text) : Text :=
  let cuts := (List.range (value.length + 1)).filter fun n => Glob.matchesName tokens (value.take n)
  value.drop ((if longest then cuts.getLast? else cuts.head?).getD 0)

/-- The shortest or longest part at the end that matches, taken away. -/
def withoutEnd (tokens : List Glob.Token) (longest : Bool) (value : Text) : Text :=
  let cuts := (List.range (value.length + 1)).filter fun n => Glob.matchesName tokens (value.drop n)
  value.take ((if longest then cuts.head? else cuts.getLast?).getD value.length)

/-- Lists of arguments that a parameter stands for by itself. -/
def argumentsOf? (s : Shell) (name : Text) : Option (List Text) :=
  if name = ['@'] ∨ name = ['*'] then some s.arguments else none

/-- The value of a parameter, if it is set. -/
def parameter? (s : Shell) (name : Text) : Option Text :=
  if name = ['#'] then some (toString s.arguments.length).toList
  else if name = ['?'] then some (toString s.status).toList
  else if name = ['$'] then some (toString s.process).toList
  else if name = ['-'] then some s.modes
  else if name = ['!'] then none
  else if name = ['0'] then some s.name
  else if name.all Char.isDigit then s.arguments[Nat.ofDigitChars 10 name 0 - 1]?
  else s.lookup name

/-- Items that several arguments become.  In quotes they are `together` with a place between each
two, or else one value, with the first separator between each two. -/
def itemsOfArguments (separators : Text) (together inQuotes : Bool) : List Text → List Item
  | [] => if together && inQuotes then [.absent] else []
  | [value] => itemsOfValue separators inQuotes value
  | value :: values =>
    itemsOfValue separators inQuotes value ++
      (if !inQuotes then [.gap ' '] else if together then [.between]
        else (separators.take 1).map fun c => .mark ⟨c, true⟩) ++
      itemsOfArguments separators together inQuotes values

/-- Text without line feeds at its end. -/
def withoutNewlines (text : Text) : Text := (text.reverse.dropWhile (· = '\n')).reverse

mutual

/-- The items of a word; `printed` runs a script for what it prints. -/
def itemsOf (printed : Text → Action Text) : List Piece → Action (List Item)
  | [] => return []
  | piece :: pieces => return (← itemsOfPiece printed piece) ++ (← itemsOf printed pieces)

/-- The items of one piece of a word. -/
def itemsOfPiece (printed : Text → Action Text) : Piece → Action (List Item)
  | .bare c => return [.mark ⟨c, false⟩]
  | .quoted c => return [.mark ⟨c, true⟩]
  | .quotes => return [.quotes]
  | .output script inQuotes => do
    let text := withoutNewlines (← printed script)
    return itemsOfValue (← get).separators inQuotes text
  | .arithmetic formula inQuotes => do
    let formula := (unsplit (← itemsOf printed formula)).map Mark.char
    return itemsOfValue (← get).separators inQuotes (← computed formula)
  | .length name inQuotes => do
    let s ← get
    let length := ((parameter? s name).getD []).length
    return itemsOfValue s.separators inQuotes (toString length).toList
  | .parameter name rule operand inQuotes => do
    let s ← get
    match argumentsOf? s name with
    | some arguments => return itemsOfArguments s.separators (name = ['@']) inQuotes arguments
    | none =>
      let value := parameter? s name
      let isStrict := rule.head? = some ':'
      let isUsable := if isStrict then !(value.getD []).isEmpty else value.isSome
      let plain := itemsOfValue s.separators inQuotes (value.getD [])
      match rule.getLast? with
      | some '-' => if isUsable then return plain else itemsOf printed operand
      | some '+' => if isUsable then itemsOf printed operand else return []
      | some '=' =>
        if isUsable then return plain
        let items ← itemsOf printed operand
        modify (·.assign name ((unsplit items).map Mark.char))
        return items
      | some '?' =>
        if isUsable then return plain
        let message := (unsplit (← itemsOf printed operand)).map Mark.char
        let message := if !message.isEmpty then message
          else (if isStrict then "parameter not set or null" else "parameter not set").toList
        unset name message
      | last =>
        if value.isNone ∧ s.refusesUnset then unset name "parameter not set".toList
        else if last = none then return plain
        else
          let tokens := wildcards (unsplit (← itemsOf printed operand))
          let cut := if last = some '#' then withoutFront else withoutEnd
          return itemsOfValue s.separators inQuotes (cut tokens (rule.length = 2) (value.getD []))
where
  unset (name message : Text) : Action (List Item) := do
    complainHere (name ++ ": ".toList ++ message)
    throw (.exit 2)

end

/-- Whether a token stands for anything but itself. -/
def isWild : Glob.Token → Bool
  | .literal _ => false
  | _ => true

/-- Splits at slashes. -/
def atSlashes (tokens : List Glob.Token) : List (List Glob.Token) := pieces (.literal '/') tokens

/-- The names in the directory `front` that match; a name that begins with a dot matches only a
dot. -/
def namesIn (s : Shell) (front : Text) (part : List Glob.Token) : List Text :=
  match s.tree.list s.here (pathOf (if front.isEmpty then ['.'] else front)) with
  | .ok entries =>
    (entries.map fun (n, _) => ofBytes n.bytes).filter fun name =>
      Glob.matchesName part name && (name.head? ≠ some '.' || part.head? = some (.literal '.'))
  | .error _ => []

/-- The paths below `front` that the remaining parts of a path with wildcards select. -/
def selected (s : Shell) (front : Text) : List (List Glob.Token) → List Text
  | [] => [front]
  | part :: parts =>
    let names := match part.mapM Glob.Token.character? with
      | some name => [name]
      | none => namesIn s front part
    names.flatMap fun name =>
      selected s (front ++ name ++ if parts.isEmpty then [] else ['/']) parts

/-- The paths that a field selects; a field that selects none stands for itself. -/
def pathsOf (s : Shell) (field : List Mark) : List Text :=
  let tokens := wildcards field
  let plain := field.map Mark.char
  if tokens.any isWild then
    let found := (selected s [] (atSlashes tokens)).filter fun path =>
      (s.tree.locate s.here (pathOf path) false).isOk
    if found.isEmpty then [plain]
    else ordered (fun a b => (compare (toBytes a) (toBytes b)).isLE) found
  else [plain]

/-- The values that words become. -/
def valuesOf (printed : Text → Action Text) (words : List (List Piece)) : Action (List Text) := do
  let mut values := []
  for word in words do
    let parts := fields (← itemsOf printed word)
    values := values ++ parts.flatMap (pathsOf (← get))
  return values

/-- The one value that a word becomes where it is not to be split. -/
def valueOf (printed : Text → Action Text) (word : List Piece) : Action Text :=
  return (unsplit (← itemsOf printed word)).map Mark.char

/-- The wildcards that a word becomes. -/
def patternOf (printed : Text → Action Text) (word : List Piece) : Action (List Glob.Token) :=
  return wildcards (unsplit (← itemsOf printed word))

end DualModule.Script
