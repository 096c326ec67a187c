import DualModule.Utf8
/-!
# Writing JSON

Values are written over several lines, two blanks deeper for each level; empty lists stay on one
line.  Members are written in the order in which they are given.

In strings the quote, the backslash and the control characters are escaped, and nothing else.

## Main Definitions

* `Json.Tree`
* `Json.quoted`, `Json.Tree.pretty`
-/

namespace DualModule.Json

/-- A value to be written. -/
inductive Tree where
  | boolean (b : Bool)
  | natural (n : Nat)
  | string (text : Text)
  | array (items : List Tree)
  | object (members : List (String × Tree))

/-- How a character is written inside a string. -/
def escape (c : Char) : Text :=
  match c with
  | '"' => ['\\', '"']
  | '\\' => ['\\', '\\']
  | '\x08' => ['\\', 'b']
  | '\x0c' => ['\\', 'f']
  | '\n' => ['\\', 'n']
  | '\r' => ['\\', 'r']
  | '\t' => ['\\', 't']
  | c =>
    if c < ' ' then
      "\\u00".toList ++ [Nat.digitChar (c.toNat / 16), Nat.digitChar (c.toNat % 16)]
    else [c]

/-- A string between quotes. -/
def quoted (text : Text) : Text := '"' :: text.flatMap escape ++ ['"']

/-- The start of a line at a depth. -/
def newLine (depth : Nat) : Text := '\n' :: List.replicate (2 * depth) ' '

/-- Entries between brackets, each on a line of its own. -/
def bracketed (opening closing : Char) (depth : Nat) (entries : List Text) : Text :=
  if entries.isEmpty then [opening, closing]
  else
    opening :: newLine (depth + 1) ++ List.intercalate (',' :: newLine (depth + 1)) entries ++
      newLine depth ++ [closing]

namespace Tree

mutual

/-- A value that begins on a line of some depth. -/
def pretty (depth : Nat) : Tree → Text
  | boolean b => (toString b).toList
  | natural n => (toString n).toList
  | string text => quoted text
  | array items => bracketed '[' ']' depth (prettyItems (depth + 1) items)
  | object members => bracketed '\x7b' '\x7d' depth (prettyMembers (depth + 1) members)

/-- The items of an array. -/
def prettyItems (depth : Nat) : List Tree → List Text
  | [] => []
  | item :: items => item.pretty depth :: prettyItems depth items

/-- The members of an object. -/
def prettyMembers (depth : Nat) : List (String × Tree) → List Text
  | [] => []
  | (name, value) :: members =>
    (quoted name.toList ++ ": ".toList ++ value.pretty depth) :: prettyMembers depth members

end

end Tree

end DualModule.Json
