import DualModule.FileTree.Editing
import DualModule.Script.Filter
/-!
# Utilities

The small programs that scripts use: printing, testing, and work on files.  A utility gets its
arguments, writes to the streams of whoever starts it and ends with a status; it changes nothing of
the shell but the files.

**Complaints** name the utility, what could not be done, and the system's reason.

## Main Definitions

* `Script.condition`: what `test` tests
* `Script.utility?`: the utility of a name
-/

namespace DualModule.Script

/-- Tries an operation on files for each name.  A refusal is complained about with what `front` says
in front of the name, and does not stop the others. -/
def forNames (front : String) (operation : Shell → Path → Except SystemError FileTree) :
    List Text → Action Unit
  | [] => pure ()
  | name :: names => do
    let s ← get
    match operation s (pathOf name) with
    | .ok tree => set { s with tree }
    | .error cause =>
      refuse (front.toList ++ inQuotationMarks name ++ ": ".toList ++ cause.reason.toList)
    forNames front operation names

/-- The letters of the options at the front of arguments, and the arguments behind them. -/
def splitOptions : List Text → Text × List Text
  | ['-', '-'] :: rest => ([], rest)
  | ('-' :: c :: cs) :: rest => (splitOptions rest).map (c :: cs ++ ·) id
  | rest => ([], rest)

/-- The last step of a path. -/
def lastName (path : Text) : Text :=
  let names := (pieces '/' path).filter (· ≠ [])
  names.getLast?.getD (if path.isEmpty then [] else ['/'])

/-- The path without its last step. -/
def directoryName (path : Text) : Text :=
  let body := (path.reverse.dropWhile (· = '/')).dropWhile (· ≠ '/')
  let front := (body.dropWhile (· = '/')).reverse
  if !front.isEmpty then front else if path.head? = some '/' then ['/'] else ['.']

/-- Where a file goes that is copied or moved to `target`: into it, if it is a directory. -/
def destination (s : Shell) (source target : Text) : Path :=
  let place := pathOf target
  if s.tree.namesDirectory s.here place then place.push (toBytes (lastName source)) else place

/-- The tree in which a file or link is copied, or a directory with everything in it. -/
def copied (s : Shell) (source target : Path) : Except SystemError FileTree := do
  let l ← s.tree.locate s.here source false
  match s.tree.get? l with
  | some .directory =>
    let fresh ← s.tree.install s.here target .directory
    (s.tree.below l).foldlM (fun t (inner, node) =>
      t.install s.here (target.push inner.bytes) node) fresh
  | some node =>
    let _ ← s.tree.locateParent s.here target
    match node, s.tree.read s.here target with
    -- a file that is there already is written to, and keeps its mode and its other names
    | .file content _, .ok _ => s.tree.write s.here target content
    | _, _ => s.tree.install s.here target node
  | none => throw .noEntry

/-- The tree in which an entry has gone to another place.  A file takes its other names along, the
files inside a directory do not. -/
def moved (s : Shell) (source target : Path) : Except SystemError FileTree := do
  let l ← s.tree.locate s.here source false
  match s.tree.get? l with
  | some (.file _ _) =>
    let cleared := (s.tree.unlink s.here target).toOption.getD s.tree
    (← cleared.link s.here source target).unlink s.here source
  | _ => (← copied s source target).discard s.here source

/-- Does something with all arguments but the last, and with the last. -/
def towardsLast (front : String) (operation : Shell → Text → Text → Except SystemError FileTree)
    (arguments : List Text) : Action Unit := do
  let target := arguments.getLast?.getD []
  for source in arguments.dropLast do
    let s ← get
    match operation s source target with
    | .ok tree => set { s with tree }
    | .error cause =>
      refuse (front.toList ++ inQuotationMarks source ++ ": ".toList ++ cause.reason.toList)

/-- Copies entries to a place or into a directory; directories only if an option says so. -/
def copyAll (arguments : List Text) : Action Unit := do
  let (options, names) := splitOptions arguments
  let s ← get
  let isOmitted (name : Text) : Bool :=
    !options.any (· ∈ ['a', 'r', 'R']) && s.tree.namesDirectory s.here (pathOf name)
  towardsLast "cp: cannot stat " (fun s source target =>
      copied s (pathOf source) (destination s source target))
    (names.dropLast.filter (!isOmitted ·) ++ names.getLast?.toList)
  for name in names.dropLast.filter isOmitted do
    refuse ("cp: -r not specified; omitting directory ".toList ++ inQuotationMarks name)

/-- The tree in which a file may be run, or may not. -/
def withExecutable (executable : Bool) (s : Shell) (path : Path) :
    Except SystemError FileTree := do
  let l ← s.tree.locate s.here path true
  match s.tree.get? l with
  | some (.file content _) => return s.tree.overwrite l content executable
  | _ => return s.tree

/-- Whether a mode lets a file be run. -/
def allowsRunning (mode : Text) : Bool :=
  if mode.all Char.isDigit then mode.any fun c => c.toNat % 2 = 1
  else 'x' ∈ mode && '-' ∉ mode

/-- What one word tests about a file. -/
def fileCondition (s : Shell) (letter : Char) (path : Path) : Bool :=
  let follow := letter ≠ 'h' && letter ≠ 'L'
  match s.tree.locate s.here path follow with
  | .error _ => false
  | .ok l =>
    match letter, s.tree.get? l with
    | 'd', node => node = some .directory
    | 'f', some (.file ..) => true
    | 'f', _ => false
    | 'h', some (.link _) | 'L', some (.link _) => true
    | 'h', _ | 'L', _ => false
    | 's', some (.file content _) => !content.isEmpty
    | 'x', some (.file _ executable) => executable
    | _, _ => true

/-- The number that an argument of a test spells. -/
def testedNumber (text : Text) : Except Text Int :=
  let digits := if text.head? = some '-' ∨ text.head? = some '+' then text.tail else text
  if digits.isEmpty ∨ !digits.all Char.isDigit then .error ("Illegal number: ".toList ++ text)
  else .ok (numberOf (if text.head? = some '+' then digits else text))

/-- The arguments in front of a word and those behind it. -/
def splitAtWord? (word : String) (arguments : List Text) : Option (List Text × List Text) :=
  let front := arguments.takeWhile (· ≠ word.toList)
  if front.length < arguments.length then some (front, arguments.drop (front.length + 1)) else none

/-- What `test` tests, or why it is no test; `budget` bounds the number of parts. -/
def conditionFrom (s : Shell) (budget : Nat) (arguments : List Text) : Except Text Bool := do
  match budget, arguments with
  | 0, _ | _, [] => return false
  | _, [word] => return !word.isEmpty
  | budget + 1, [['!'], word] => return !(← conditionFrom s budget [word])
  | _, [option, word] =>
    match option with
    | ['-', 'n'] => return !word.isEmpty
    | ['-', 'z'] => return word.isEmpty
    | ['-', 't'] => return false
    | ['-', letter] =>
      if letter ∈ ['d', 'e', 'f', 'h', 'L', 'r', 's', 'w', 'x'] then
        return fileCondition s letter (pathOf word)
      else throw (option ++ ": unexpected operator".toList)
    | _ => throw (option ++ ": unexpected operator".toList)
  | budget + 1, [a, operator, b] =>
    match String.ofList operator with
    | "=" => return a = b
    | "!=" => return a ≠ b
    | "-eq" => return (← testedNumber a) = (← testedNumber b)
    | "-ne" => return (← testedNumber a) ≠ (← testedNumber b)
    | "-lt" => return (← testedNumber a) < (← testedNumber b)
    | "-le" => return (← testedNumber a) ≤ (← testedNumber b)
    | "-gt" => return (← testedNumber b) < (← testedNumber a)
    | "-ge" => return (← testedNumber b) ≤ (← testedNumber a)
    | "-a" => return !a.isEmpty && !b.isEmpty
    | "-o" => return !a.isEmpty || !b.isEmpty
    | _ =>
      if a = ['!'] then return !(← conditionFrom s budget [operator, b])
      else if a = ['('] ∧ b = [')'] then return !operator.isEmpty
      else throw (a ++ ": unexpected operator".toList)
  | budget + 1, a :: rest =>
    match splitAtWord? "-o" (a :: rest), splitAtWord? "-a" (a :: rest) with
    | some (front, behind), _ =>
      return (← conditionFrom s budget front) || (← conditionFrom s budget behind)
    | none, some (front, behind) =>
      return (← conditionFrom s budget front) && (← conditionFrom s budget behind)
    | none, none =>
      if a = ['!'] then return !(← conditionFrom s budget rest)
      else if a = ['('] ∧ rest.getLast? = some [')'] then conditionFrom s budget rest.dropLast
      else throw (rest.head?.getD [] ++ ": unexpected operator".toList)

/-- What `test` tests, or why it is no test. -/
def condition (s : Shell) (arguments : List Text) : Except Text Bool :=
  conditionFrom s (arguments.length + 1) arguments

/-- Takes away entries; what is missing is passed over if `isForced`. -/
def removeEntry (isRecursive isForced : Bool) (s : Shell) (path : Path) :
    Except SystemError FileTree := do
  match s.tree.locate s.here path false with
  | .error .noEntry => if isForced then return s.tree else throw .noEntry
  | .error cause => throw cause
  | .ok l =>
    if s.tree.isDirectory l then
      if isRecursive then s.tree.discard s.here path else throw .isDirectory
    else s.tree.unlink s.here path

/-- Makes a directory and those above it. -/
def makeAll (s : Shell) (path : Path) : Except SystemError FileTree :=
  match s.tree.makeDirectories s.here path with
  | (.ok (), tree) => .ok tree
  | (.error cause, _) => .error cause

/-- The utility of a name. -/
def utility? (name : Text) : Option (List Text → Action Unit) :=
  match String.ofList name with
  | "true" | ":" | "sleep" | "sync" => some fun _ => pure ()
  | "false" => some fun _ => finish 1
  | "echo" => some fun arguments => emit 1 (echoed arguments)
  | "printf" => some fun
    | [] => do complain "printf: usage: printf format [arg ...]".toList; finish 2
    | format :: arguments => emit 1 (formatted format arguments)
  | "test" => some fun arguments => do check "test" (condition (← get) arguments)
  | "[" => some fun arguments => do
    let s ← get
    check "[" (if arguments.getLast? = some [']'] then condition s arguments.dropLast
      else .error "missing ]".toList)
  | "cat" => some concatenate
  | "head" => some (printPart "head" true)
  | "tail" => some (printPart "tail" false)
  | "wc" => some count
  | "ls" => some listNames
  | "seq" => some countUp
  | "expr" => some compute
  | "touch" => some (forNames "touch: cannot touch " fun s path =>
    if (s.tree.locate s.here path true).isOk then .ok s.tree else s.tree.write s.here path [])
  | "mkdir" => some fun arguments =>
    let (options, names) := splitOptions arguments
    forNames "mkdir: cannot create directory "
      (if 'p' ∈ options then makeAll else fun s path => s.tree.makeDirectory s.here path) names
  | "rmdir" => some (forNames "rmdir: failed to remove " fun s path =>
    s.tree.removeDirectory s.here path)
  | "rm" => some fun arguments =>
    let (options, names) := splitOptions arguments
    let isRecursive := 'r' ∈ options || 'R' ∈ options
    forNames "rm: cannot remove " (removeEntry isRecursive ('f' ∈ options)) names
  | "cp" => some copyAll
  | "mv" => some fun arguments =>
    towardsLast "mv: cannot stat " (fun s source target =>
      moved s (pathOf source) (destination s source target)) (splitOptions arguments).2
  | "ln" => some fun arguments =>
    let (options, names) := splitOptions arguments
    let isSymbolic := 's' ∈ options
    towardsLast
      (if isSymbolic then "ln: failed to create symbolic link " else "ln: failed to access ")
      (fun s source target =>
        let place := destination s source target
        if isSymbolic then s.tree.create s.here place (.link (pathOf source))
        else s.tree.link s.here (pathOf source) place) names
  | "chmod" => some fun
    | mode :: names =>
      forNames "chmod: cannot access " (withExecutable (allowsRunning mode)) names
    | [] => refuse "chmod: missing operand".toList
  | "basename" => some fun
    | [path, ending] =>
      let last := lastName path
      let isCut := last ≠ ending ∧ ending.isSuffixOf last
      emit 1 ((if isCut then last.take (last.length - ending.length) else last) ++ ['\n'])
    | arguments => emit 1 (lastName (arguments.head?.getD []) ++ ['\n'])
  | "dirname" => some fun arguments =>
    emit 1 (directoryName (arguments.head?.getD []) ++ ['\n'])
  | "pwd" => some fun _ => do emit 1 (ofBytes (← get).here.path.bytes ++ ['\n'])
  | _ => none
where
  check (name : String) : Except Text Bool → Action Unit
    | .ok true => finish 0
    | .ok false => finish 1
    | .error reason => do
      complainHere (name.toList ++ ": ".toList ++ reason)
      finish 2

end DualModule.Script
