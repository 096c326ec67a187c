import DualModule.FileTree.Operations
/-!
# Setting up and looking at trees

Ways to make a tree entry by entry and to list what is in it, for those who keep file trees:
unlike the operations of the system, these replace what is in the way.

## Main Definitions

* `FileTree.install`, `FileTree.discard`
* `FileTree.below`: everything inside a directory
-/

namespace DualModule.FileTree

/-- The tree with an entry where a path says: directories above it are made, and what is in its
place gives way, except that a directory stays a directory. -/
def install (t : FileTree) (here : Location) (p : Path) (node : Node) :
    Except SystemError FileTree := do
  let t := match p.parent? with
    | some parent => (t.makeDirectories here parent).2
    | none => t
  match ← t.locateParent here p with
  | (d, some (.down n)) =>
    match node with
    | .directory =>
      if t.isDirectory (n :: d) then return t
      else (t.prune (n :: d) (List.cons_ne_nil n d)).place n d .directory
    | node => (t.prune (n :: d) (List.cons_ne_nil n d)).place n d node
  | _ => if node = .directory then return t else throw .isDirectory

/-- The tree without the entry that a path names, nor anything below it. -/
def discard (t : FileTree) (here : Location) (p : Path) : Except SystemError FileTree := do
  let l ← t.locate here p false
  if h : l = [] then throw .busy else return t.prune l h

/-- The names that lead from the directory at `d` to `l`, the innermost first, if `l` is inside. -/
def within? (d : Location) : Location → Option Location
  | [] => none
  | n :: e => if e = d then some [n] else (within? d e).map (n :: ·)

/-- Everything inside a directory, with paths relative to it. -/
def below (t : FileTree) (d : Location) : List (Path × Node) :=
  t.nodes.toList.filterMap fun (l, node) =>
    (within? d l).map fun names => (⟨joinPieces slash (names.reverse.map FileName.bytes)⟩, node)

end DualModule.FileTree
