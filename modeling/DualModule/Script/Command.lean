import DualModule.Script.Word
/-!
# Commands of a script

The commands that a list of tokens spells.

## Main Definitions

* `Script.Redirection`, `Script.Command`
* `Script.parse?`: the commands of a script, if it is well-formed
-/

namespace DualModule.Script

/-- Where a stream of a command goes. -/
structure Redirection where
  stream : Nat
  kind : Text
  target : List Piece

/-- A command. -/
inductive Command where
  /-- assignments, then words, of which the first names what is run -/
  | simple (line : Nat) (assignments : List (Text × List Piece)) (words : List (List Piece))
      (redirections : List Redirection)
  | loop (line : Nat) (name : Text) (words : Option (List (List Piece))) (body : List Command)
  | choose (word : List Piece) (arms : List (List (List Piece) × List Command))
  | branch (condition consequent alternative : List Command)
  /-- repeats the body while the condition succeeds, or until it does -/
  | repeating (untilSuccess : Bool) (condition body : List Command)
  | group (body : List Command) (isolated : Bool)
  | redirected (body : Command) (redirections : List Redirection)
  | pipeline (negated : Bool) (stages : List Command)
  /-- runs the second command if the first one succeeded, or if it failed -/
  | joined (first : Command) (ifSucceeded : Bool) (second : Command)
  | function (name : Text) (body : Command)

/-- The text of a word all of whose characters stand for themselves without quotes. -/
def bareText? (pieces : List Piece) : Option Text :=
  pieces.mapM fun
    | .bare c => some c
    | _ => none

/-- The name that is assigned to at the front of a word, and the value's pieces. -/
def assignment? (pieces : List Piece) : Option (Text × List Piece) :=
  let front := pieces.takeWhile fun
    | .bare c => isNameChar c
    | _ => false
  match bareText? front, pieces.drop front.length with
  | some (c :: cs), .bare '=' :: value => if isNameStart c then some (c :: cs, value) else none
  | _, _ => none

/-- Whether the next token is this reserved word. -/
def isReserved (word : String) : List Token → Bool
  | .word _ pieces :: _ => bareText? pieces = some word.toList
  | _ => false

/-- Whether the next token is this operator. -/
def isOperator (text : String) : List Token → Bool
  | .operator o :: _ => o = text.toList
  | _ => false

/-- Drops line feeds and semicolons at the front. -/
def skipSeparators : List Token → List Token
  | .operator o :: ts => if o = ['\n'] ∨ o = [';'] then skipSeparators ts else .operator o :: ts
  | ts => ts

/-- Drops line feeds at the front. -/
def skipNewlines : List Token → List Token
  | .operator o :: ts => if o = ['\n'] then skipNewlines ts else .operator o :: ts
  | ts => ts

/-- The words that end a list of commands. -/
def closers : List String := ["done", "fi", "then", "else", "elif", "do", "esac", "\x7d"]

/-- Whether a list of commands ends here. -/
def endsList (ts : List Token) : Bool :=
  ts.isEmpty || isOperator ";;" ts || isOperator ")" ts || closers.any (isReserved · ts)

/-- What follows a reserved word, if it is next. -/
def expect? (word : String) (ts : List Token) : Option (List Token) :=
  if isReserved word ts then some ts.tail else none

/-- Redirections at the front. -/
def parseRedirections : List Token → List Redirection × List Token
  | .redirect stream kind :: .word _ target :: ts =>
    (parseRedirections ts).map (⟨stream, kind, target⟩ :: ·) id
  | ts => ([], ts)

/-- The words and redirections of a simple command. -/
def parseWords : List Token → List (Nat × List Piece) × List Redirection × List Token
  | .redirect stream kind :: .word _ target :: ts =>
    let (words, redirections, rest) := parseWords ts
    (words, ⟨stream, kind, target⟩ :: redirections, rest)
  | .word line pieces :: ts =>
    let (words, redirections, rest) := parseWords ts
    ((line, pieces) :: words, redirections, rest)
  | ts => ([], [], ts)

/-- The words of a list that is looped over. -/
def parsePlainWords : List Token → List (List Piece) × List Token
  | .word _ pieces :: ts => (parsePlainWords ts).map (pieces :: ·) id
  | ts => ([], ts)

/-- The alternatives of an arm, up to the closing parenthesis. -/
def parseAlternatives : List Token → Option (List (List Piece) × List Token)
  | .word _ pieces :: .operator ['|'] :: ts =>
    (parseAlternatives ts).map fun (alternatives, rest) => (pieces :: alternatives, rest)
  | .word _ pieces :: .operator [')'] :: ts => some ([pieces], ts)
  | _ => none

mutual

/-- Reads commands up to the end of a list; `budget` bounds the number of steps. -/
def parseList (budget : Nat) (ts : List Token) : Option (List Command × List Token) := do
  match budget with
  | 0 => none
  | budget + 1 =>
    let ts := skipSeparators ts
    if endsList ts then return ([], ts)
    let (command, ts) ← parseJoined budget ts
    let ts := if isOperator "&" ts then ts.tail else ts
    let (commands, ts) ← parseList budget ts
    return (command :: commands, ts)

/-- Reads pipelines joined by `&&` and `||`. -/
def parseJoined (budget : Nat) (ts : List Token) : Option (Command × List Token) := do
  match budget with
  | 0 => none
  | budget + 1 =>
    let (first, ts) ← parsePipeline budget ts
    parseJoinedAfter budget first ts

/-- Reads what is joined to a command. -/
def parseJoinedAfter (budget : Nat) (first : Command) (ts : List Token) :
    Option (Command × List Token) := do
  match budget with
  | 0 => none
  | budget + 1 =>
    if isOperator "&&" ts then
      let (second, ts) ← parsePipeline budget (skipNewlines ts.tail)
      parseJoinedAfter budget (.joined first true second) ts
    else if isOperator "||" ts then
      let (second, ts) ← parsePipeline budget (skipNewlines ts.tail)
      parseJoinedAfter budget (.joined first false second) ts
    else return (first, ts)

/-- Reads commands joined by `|`. -/
def parsePipeline (budget : Nat) (ts : List Token) : Option (Command × List Token) := do
  match budget with
  | 0 => none
  | budget + 1 =>
    let negated := isReserved "!" ts
    let (stages, ts) ← parseStages budget (if negated then ts.tail else ts)
    match stages, negated with
    | [command], false => return (command, ts)
    | stages, negated => return (.pipeline negated stages, ts)

/-- Reads the commands of a pipeline. -/
def parseStages (budget : Nat) (ts : List Token) : Option (List Command × List Token) := do
  match budget with
  | 0 => none
  | budget + 1 =>
    let (command, ts) ← parseCommand budget ts
    if isOperator "|" ts then
      let (commands, ts) ← parseStages budget (skipNewlines ts.tail)
      return (command :: commands, ts)
    else return ([command], ts)

/-- Reads one command with what redirects it. -/
def parseCommand (budget : Nat) (ts : List Token) : Option (Command × List Token) := do
  match budget with
  | 0 => none
  | budget + 1 =>
    match ts with
    | .word _ pieces :: .operator ['('] :: .operator [')'] :: ts =>
      let (body, ts) ← parseCommand budget (skipNewlines ts)
      return (.function (← bareText? pieces) body, ts)
    | .operator ['('] :: ts =>
      let (body, ts) ← parseList budget ts
      if isOperator ")" ts then redirecting (.group body true) ts.tail else none
    | ts =>
      if isReserved "\x7b" ts then
        let (body, ts) ← parseList budget ts.tail
        redirecting (.group body false) (← expect? "\x7d" ts)
      else if isReserved "if" ts then
        let (command, ts) ← parseBranch budget ts.tail
        redirecting command ts
      else if isReserved "while" ts ∨ isReserved "until" ts then
        let untilSuccess := isReserved "until" ts
        let (condition, ts) ← parseList budget ts.tail
        let (body, ts) ← parseList budget (← expect? "do" ts)
        redirecting (.repeating untilSuccess condition body) (← expect? "done" ts)
      else if isReserved "for" ts then
        match ts.tail with
        | .word line name :: ts =>
          let name ← bareText? name
          let ts := skipNewlines ts
          let (words, ts) := if isReserved "in" ts then
              (parsePlainWords ts.tail).map some id
            else (none, ts)
          let (body, ts) ← parseList budget (← expect? "do" (skipSeparators ts))
          redirecting (.loop line name words body) (← expect? "done" ts)
        | _ => none
      else if isReserved "case" ts then
        match ts.tail with
        | .word _ word :: ts =>
          let (arms, ts) ← parseArms budget (← expect? "in" (skipNewlines ts))
          redirecting (.choose word arms) ts
        | _ => none
      else
        let (words, redirections, rest) := parseWords ts
        if words.isEmpty ∧ redirections.isEmpty then none
        else
          let pieces := words.map (·.2)
          let assignments := (pieces.map assignment?).takeWhile Option.isSome |>.filterMap id
          return (.simple ((words.head?.map (·.1)).getD 1) assignments
            (pieces.drop assignments.length) redirections, rest)
  where
    redirecting (command : Command) (ts : List Token) : Option (Command × List Token) :=
      match parseRedirections ts with
      | ([], ts) => some (command, ts)
      | (redirections, ts) => some (.redirected command redirections, ts)

/-- Reads the rest of a conditional behind its first word. -/
def parseBranch (budget : Nat) (ts : List Token) : Option (Command × List Token) := do
  match budget with
  | 0 => none
  | budget + 1 =>
    let (condition, ts) ← parseList budget ts
    let (consequent, ts) ← parseList budget (← expect? "then" ts)
    if isReserved "elif" ts then
      let (alternative, ts) ← parseBranch budget ts.tail
      return (.branch condition consequent [alternative], ts)
    else if isReserved "else" ts then
      let (alternative, ts) ← parseList budget ts.tail
      return (.branch condition consequent alternative, ← expect? "fi" ts)
    else return (.branch condition consequent [], ← expect? "fi" ts)

/-- Reads the arms of a choice up to its last word. -/
def parseArms (budget : Nat) (ts : List Token) :
    Option (List (List (List Piece) × List Command) × List Token) := do
  match budget with
  | 0 => none
  | budget + 1 =>
    let ts := skipNewlines ts
    if isReserved "esac" ts then return ([], ts.tail)
    let (patterns, ts) ← parseAlternatives (if isOperator "(" ts then ts.tail else ts)
    let (body, ts) ← parseList budget ts
    let ts := skipNewlines (if isOperator ";;" ts then ts.tail else ts)
    let (arms, ts) ← parseArms budget ts
    return ((patterns, body) :: arms, ts)

end

/-- The commands of a script, if it is well-formed. -/
def parse? (script : Text) : Option (List Command) :=
  let ts := tokens script
  match parseList (8 * ts.length + 8) ts with
  | some (commands, []) => some commands
  | _ => none

end DualModule.Script
