import DualModule.FileTree.Basic
import DualModule.SystemError
/-!
# Finding what a path names

Resolution follows a path step by step from a starting directory: down to an entry, up to the
containing directory, or nowhere for `.`.  A symbolic link on the way is replaced by the path that
it holds.

**Every step is taken in a directory.**  A file can only be the end of a path; a separator behind
the last name asks for a directory there, as if the path went on with `.`.

**Termination.**  `advance` reads steps until it is done or meets a link, and reads each step once;
`resolve` continues behind a link, at most `maxLinks` times.  Trees with cycles of links are
therefore no special case.

## Main Definitions

* `Step`, `Path.steps`, `Path.lookupSteps`
* `FileTree.advance`, `FileTree.resolve`
* `FileTree.locate`: the entry that a path names
* `FileTree.locateParent`: the directory and the last step of a path that is to be created or
  removed
-/

namespace DualModule

/-- What one piece of a path asks for. -/
inductive Step where
  | stay
  | up
  | down (name : FileName)
deriving DecidableEq

/-- What a piece between two separators asks for; the empty piece asks for nothing. -/
def Step.ofPiece? (piece : Bytes) : Option Step :=
  if piece = [dot] then some .stay
  else if piece = [dot, dot] then some .up
  else (FileName.ofBytes? piece).map .down

namespace Path

/-- The steps of a path. -/
def steps (p : Path) : List Step := (pieces slash p.bytes).filterMap Step.ofPiece?

/-- Whether a separator ends the path. -/
def endsInSlash (p : Path) : Bool := p.bytes.getLast? == some slash

/-- The steps of a path that is to be looked up: a separator at the end asks for a directory. -/
def lookupSteps (p : Path) : List Step := p.steps ++ if p.endsInSlash then [.stay] else []

/-- Where the steps of a path begin if it is met in the directory at `d`. -/
def start (p : Path) (d : Location) : Location := if p.isAbsolute then [] else d

/-- What the system checks about a path before it looks at any directory. -/
def check (p : Path) : Except SystemError Unit :=
  if 0 ∈ p.bytes then .error .nulInPath
  else if p.bytes = [] then .error .noEntry
  else if maxPathLength < p.bytes.length then .error .nameTooLong
  else .ok ()

end Path

/-- How far reading steps gets. -/
inductive Progress where
  /-- the steps lead to an entry -/
  | arrived (l : Location)
  /-- all but the last step lead to a directory, which has no entry of the last name -/
  | vacant (d : Location) (n : FileName)
  /-- the steps lead to a link in a directory, with steps to go behind it -/
  | redirected (d : Location) (target : Path) (rest : List Step)
  | refused (cause : SystemError)

/-- What a path names: an entry, or a place in a directory where there is none. -/
inductive Spot where
  | taken (l : Location)
  | vacant (d : Location) (n : FileName)
deriving DecidableEq

/-- The entry that a spot is. -/
def Spot.entry : Spot → Except SystemError Location
  | .taken l => .ok l
  | .vacant _ _ => .error .noEntry

/-- How many links resolution follows before it gives up. -/
def maxLinks : Nat := 40

namespace FileTree

/-- Follows steps from the directory at a location up to the next link.  A link at the very end is
followed only if `follow` says so. -/
def advance (t : FileTree) (follow : Bool) : Location → List Step → Progress
  | l, [] => .arrived l
  | l, .stay :: rest => advance t follow l rest
  | l, .up :: rest => advance t follow l.tail rest
  | l, .down n :: rest =>
    if maxNameLength < n.bytes.length then .refused .nameTooLong
    else match t.get? (n :: l) with
      | none => if rest.isEmpty then .vacant l n else .refused .noEntry
      | some .directory => advance t follow (n :: l) rest
      | some (.file _ _) => if rest.isEmpty then .arrived (n :: l) else .refused .notDirectory
      | some (.link target) =>
        if rest.isEmpty && !follow then .arrived (n :: l) else .redirected l target rest

/-- Follows steps to their end, through at most `budget` links. -/
def resolve (t : FileTree) (follow : Bool) : Nat → Location → List Step →
    Except SystemError Spot
  | budget, l, steps =>
    match t.advance follow l steps with
    | .arrived l => .ok (.taken l)
    | .vacant d n => .ok (.vacant d n)
    | .refused cause => .error cause
    | .redirected d target rest =>
      match budget with
      | 0 => .error .tooManyLinks
      | budget + 1 => resolve t follow budget (target.start d) (target.lookupSteps ++ rest)

/-- What a path names, seen from the directory at `here`. -/
def spot (t : FileTree) (here : Location) (p : Path) (follow : Bool) : Except SystemError Spot :=
  t.resolve follow maxLinks (p.start here) p.lookupSteps

/-- The location of the entry that a path names, seen from the directory at `here`. -/
def locate (t : FileTree) (here : Location) (p : Path) (follow : Bool) :
    Except SystemError Location := do
  p.check
  (← t.spot here p follow).entry

/-- The directory in which the last step of a path is taken, and that step; the root and paths
made of nothing have none. -/
def locateParent (t : FileTree) (here : Location) (p : Path) :
    Except SystemError (Location × Option Step) := do
  p.check
  let d ← (← t.resolve true maxLinks (p.start here) p.steps.dropLast).entry
  if t.isDirectory d then return (d, p.steps.getLast?)
  -- nothing is there only if that is where relative paths start
  throw (if t.get? d = none then .noEntry else .notDirectory)

end FileTree

end DualModule
