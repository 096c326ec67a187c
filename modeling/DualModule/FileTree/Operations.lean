import DualModule.FileTree.Resolve
import DualModule.FileTree.Sharing
/-!
# Operations on a file tree

What the system does to a file tree when it is asked to, path by path.  Every operation is seen
from a directory `here`, from which relative paths start.

**Refusals leave the tree alone**, with one exception: taking away a whole directory removes what
is inside before the directory itself, and the last part may be refused.  Operations that cannot
end halfway return a new tree or a refusal; the two that can (`removeTree`, `makeDirectories`)
return a tree in either case.

## Main Definitions

* `FileTree.canonical`, `FileTree.list`, `FileTree.exists?`, `FileTree.read`
* `FileTree.link`, `FileTree.unlink`, `FileTree.write`
* `FileTree.makeDirectory`, `FileTree.removeDirectory`
* `FileTree.removeTree`, `FileTree.makeDirectories`
-/

namespace DualModule

/-- The kinds of entry that a listing tells apart. -/
inductive NodeKind where
  | directory
  | file
  | link
deriving DecidableEq

/-- The kind of a node. -/
def Node.kind : Node → NodeKind
  | .directory => .directory
  | .file _ _ => .file
  | .link _ => .link

namespace FileTree

/-- The canonical path of what a path names.  The length of the path itself does not matter, since
it is read in pieces. -/
def canonical (t : FileTree) (here : Location) (p : Path) : Except SystemError Path := do
  if 0 ∈ p.bytes then throw .nulInPath
  if p.bytes = [] then throw .noEntry
  return (← (← t.spot here p true).entry).path

/-- The entries of the directory that a path names. -/
def list (t : FileTree) (here : Location) (p : Path) :
    Except SystemError (List (FileName × NodeKind)) := do
  let l ← t.locate here p true
  if t.isDirectory l then return (t.children l).map fun (n, node) => (n, node.kind)
  else throw .notDirectory

/-- Whether a path names anything; that it does not is an answer and no refusal. -/
def exists? (t : FileTree) (here : Location) (p : Path) : Except SystemError Bool :=
  match t.locate here p true with
  | .ok _ => .ok true
  | .error .noEntry => .ok false
  | .error cause => .error cause

/-- Whether a path names a directory. -/
def namesDirectory (t : FileTree) (here : Location) (p : Path) : Bool :=
  match t.locate here p true with
  | .ok l => t.isDirectory l
  | .error _ => false

/-- The bytes of the file that a path names. -/
def read (t : FileTree) (here : Location) (p : Path) : Except SystemError Bytes := do
  let l ← t.locate here p true
  match t.get? l with
  | some (.file content _) => return content
  | some .directory => throw .isDirectory
  | _ => throw .noEntry

/-- Puts an entry into the directory at `d` where there is no directory of that name. -/
def place (t : FileTree) (n : FileName) (d : Location) (node : Node) :
    Except SystemError FileTree :=
  if hd : t.get? d = some .directory then
    if hn : t.get? (n :: d) = some .directory then .error .isDirectory
    else if ha : Location.Addressable (n :: d) then .ok (t.put n d node hd hn ha)
    else .error .nameTooLong
  else .error .noEntry

/-- The name and the directory that a path gives to a new entry of some kind, if nothing is
there. -/
def vacancy (t : FileTree) (here : Location) (p : Path) (kind : NodeKind) :
    Except SystemError (FileName × Location) := do
  match ← t.locateParent here p with
  | (d, some (.down n)) =>
    if maxNameLength < n.bytes.length then throw .nameTooLong
    if t.get? (n :: d) ≠ none then throw .alreadyExists
    if p.endsInSlash ∧ kind ≠ .directory then throw .noEntry
    return (n, d)
  | _ => throw .alreadyExists

/-- Puts a new entry where a path says, if nothing is there. -/
def create (t : FileTree) (here : Location) (p : Path) (node : Node) :
    Except SystemError FileTree := do
  let (n, d) ← t.vacancy here p node.kind
  t.place n d node

/-- Gives a file a second name, where nothing has that name yet.  From then on the two are names of
one file. -/
def link (t : FileTree) (here : Location) (existing new : Path) : Except SystemError FileTree := do
  let l ← t.locate here existing false
  match t.get? l with
  | some .directory =>
    -- a place that is taken is reported before the attempt to link a directory
    let _ ← t.create here new (.file [] false)
    throw .notPermitted
  | some node =>
    let (n, d) ← t.vacancy here new node.kind
    return (← t.place n d node).identify l (n :: d)
  | none => throw .noEntry

/-- Takes away a name that is not a directory's. -/
def unlink (t : FileTree) (here : Location) (p : Path) : Except SystemError FileTree := do
  match ← t.locateParent here p with
  | (d, some (.down n)) =>
    if maxNameLength < n.bytes.length then throw .nameTooLong
    if t.get? (n :: d) = none then throw .noEntry
    if h : t.get? (n :: d) = some .directory then throw .isDirectory
    else if p.endsInSlash then throw .notDirectory
    else return t.remove (n :: d) h
  | _ => throw .isDirectory

/-- Gives the file that a path names new bytes, under all its names; where there is no file yet, one
is made. -/
def write (t : FileTree) (here : Location) (p : Path) (content : Bytes) :
    Except SystemError FileTree := do
  p.check
  if p.endsInSlash then
    let l ← t.locate here p true
    if t.isDirectory l then throw .isDirectory else throw .notDirectory
  match ← t.spot here p true with
  | .vacant d n => t.place n d (.file content false)
  | .taken l =>
    match t.get? l with
    | some (.file _ executable) => return t.overwrite l content executable
    | _ => throw .isDirectory

/-- Makes a directory, if nothing is in its place. -/
def makeDirectory (t : FileTree) (here : Location) (p : Path) : Except SystemError FileTree :=
  t.create here p .directory

/-- Takes away an empty directory. -/
def removeDirectory (t : FileTree) (here : Location) (p : Path) :
    Except SystemError FileTree := do
  match ← t.locateParent here p with
  | (d, some (.down n)) =>
    if maxNameLength < n.bytes.length then throw .nameTooLong
    match t.get? (n :: d) with
    | none => throw .noEntry
    | some .directory =>
      if (t.children (n :: d)).isEmpty then return t.prune (n :: d) (List.cons_ne_nil n d)
      else throw .notEmpty
    | some _ => throw .notDirectory
  | (_, some .stay) => throw .invalidArgument
  | (_, some .up) => throw .notEmpty
  | (_, none) => throw .busy

/-- The outcome of an operation that may have changed the tree before it was refused. -/
abbrev Outcome := Except SystemError Unit × FileTree

/-- The outcome of an operation that leaves the tree alone when it is refused. -/
def orUnchanged (t : FileTree) : Except SystemError FileTree → Outcome
  | .ok u => (.ok (), u)
  | .error cause => (.error cause, t)

/-- Takes away a directory and everything in it.  A link is only unlinked, whatever it leads to.  If
the path led through a link that was inside, the directory is not found any more when it is empty,
and stays. -/
def removeTree (t : FileTree) (here : Location) (p : Path) : Outcome :=
  match t.locate here p false with
  | .error cause => (.error cause, t)
  | .ok l =>
    match t.get? l with
    | some .directory =>
      match (t.clear l).removeDirectory here p with
      | .error .noEntry => (.ok (), t.clear l)
      | result => (t.clear l).orUnchanged result
    | some (.link _) => t.orUnchanged (t.unlink here p)
    | _ => (.error .notDirectory, t)

/-- Makes a directory and those above it that are missing; at most `levels` of them. -/
def makeDirectoriesFrom (here : Location) : Nat → FileTree → Path → Outcome
  | 0, t, p => t.orUnchanged (t.makeDirectory here p)
  | levels + 1, t, p =>
    if p.bytes = [] then (.ok (), t)
    else match t.makeDirectory here p with
      | .ok u => (.ok (), u)
      | .error .noEntry =>
        match p.parent? with
        | none => (.error .noEntry, t)
        | some parent =>
          match makeDirectoriesFrom here levels t parent with
          | (.error cause, u) => (.error cause, u)
          | (.ok (), u) =>
            if u.namesDirectory here p then (.ok (), u)
            else u.orUnchanged (u.makeDirectory here p)
      | .error cause => if t.namesDirectory here p then (.ok (), t) else (.error cause, t)

/-- Makes a directory and those above it that are missing.  A path has fewer components than
bytes. -/
def makeDirectories (t : FileTree) (here : Location) (p : Path) : Outcome :=
  makeDirectoriesFrom here (p.bytes.length + 1) t p

end FileTree

end DualModule
