import DualModule.FileTree.Operations
import DualModule.Glob.Pattern
/-!
# The paths that a pattern selects

A pattern is followed through a file tree from its first component to its last.  A component that
is an exact name is looked up, without reading the directory, so that `.`, `..` and an empty name
work as they do in paths, and a link is found wherever it leads; every other component is matched
against the entries of the directory.

**Links to directories count as directories**, also for `**`; a cycle of links ends where a path
leads through too many of them or becomes too long.  An entry that cannot be read is passed over.

**Names start at the directory itself.**  A path below the starting directory `.` is written
without it.

## Main Definitions

* `Glob.Candidate`
* `Glob.expand`: the paths that a pattern selects, in no particular order
-/

namespace DualModule.Glob

/-- A path that a pattern has led to so far. -/
structure Candidate where
  path : Path
  isDirectory : Bool

variable (t : FileTree) (here : Location)

/-- A path together with whether it leads to a directory. -/
def Candidate.at (path : Path) : Candidate := ⟨path, t.namesDirectory here path⟩

/-- The path to an entry of a directory; the directory `.` is left out. -/
def Candidate.join (c : Candidate) (name : Bytes) : Path :=
  if c.path.components = [.current] then ⟨name⟩ else c.path.push name

/-- The entries of a directory, by name. -/
def Candidate.entries (c : Candidate) : List Candidate :=
  match t.locate here c.path true with
  | .ok l =>
    (t.children l).map fun (n, node) =>
      let path := c.join n.bytes
      match node with
      | .directory => ⟨path, true⟩
      | .file _ _ => ⟨path, false⟩
      | .link _ => .at t here path
  | .error _ => []

/-- Whether there is an entry at a path, a link to nowhere included. -/
def names (path : Path) : Bool := (t.locate here path false).isOk

/-- `.` and `..`, which no directory lists: they match only where a pattern writes the dot. -/
def specials (tokens : List Token) : List Text :=
  if tokens.head? = some (.literal '.') then
    ["..".toList, ".".toList].filter (matchesName tokens)
  else []

mutual

/-- Follows the components `parts` from a directory; `budget` bounds the number of steps. -/
def follow (budget : Nat) (pattern : Pattern) (parts : List Part) (c : Candidate) : List Path :=
  match budget with
  | 0 => []
  | budget + 1 =>
    match parts with
    | [] => if !pattern.directoriesOnly || c.isDirectory then [c.path] else []
    | .exact name :: rest =>
      let next := c.join (Utf8.encode name)
      let found := if name = ['.'] ∨ name = ['.', '.'] then c.isDirectory else names t here next
      if found then follow budget pattern rest (.at t here next) else []
    | .among tokens :: rest =>
      if c.isDirectory then
        (specials tokens).flatMap (fun name =>
          follow budget pattern rest (.at t here (c.path.push (Utf8.encode name)))) ++
        (c.entries t here).flatMap (visit budget pattern parts)
      else []
    | .recursive :: _ =>
      if c.isDirectory then (c.entries t here).flatMap (visit budget pattern parts) else []

/-- Matches an entry of a directory against the components `parts`, of which there is at least
one. -/
def visit (budget : Nat) (pattern : Pattern) (parts : List Part) (c : Candidate) : List Path :=
  match budget with
  | 0 => []
  | budget + 1 =>
    match parts with
    | .recursive :: _ =>
      let rest := parts.dropWhile (· = .recursive)
      let here := match rest with
        | [] => if c.isDirectory then [c.path] else []
        | _ :: _ => visit budget pattern rest c
      here ++ if c.isDirectory then follow budget pattern (.recursive :: rest) c else []
    | .exact name :: rest =>
      if c.path.fileName?.bind FileName.text? = some name then follow budget pattern rest c else []
    | .among tokens :: rest =>
      match c.path.fileName?.bind FileName.text? with
      | some name => if matchesName tokens name then follow budget pattern rest c else []
      | none => []
    | [] => []

end

/-- The paths that a pattern selects.  Each step uses up a component or goes one directory down,
and no path is longer than the system accepts. -/
def expand (pattern : Pattern) : List Path :=
  let origin : Path := if pattern.isAbsolute then ⟨[slash]⟩ else ⟨[dot]⟩
  follow t here (3 * (pattern.parts.length + maxPathLength + 2)) pattern pattern.parts
    (.at t here origin)

end DualModule.Glob
