import DualModule.CommandLine.Run
import DualModule.FileTree.Editing
/-!
# The program

Answers the requests of procedures from the file system of the machine, and runs a command line.

Programs cannot be started from here: a request to launch one is refused as unsupported.

## Main Definitions

* `Machine.answer`, `Machine.perform`
* `main`
-/

namespace DualModule.Machine

/-- The refusal that an error of the runtime stands for.  Some of its numbers are negative. -/
def refusal (e : IO.Error) : SystemError :=
  let number : UInt32 := match e with
    | .alreadyExists _ n _ | .otherError n _ | .resourceBusy n _ | .resourceVanished n _
    | .unsupportedOperation n _ | .hardwareFault n _ | .unsatisfiedConstraints n _
    | .illegalOperation n _ | .protocolError n _ | .timeExpired n _ | .interrupted _ n _
    | .noFileOrDirectory _ n _ | .invalidArgument _ n _ | .permissionDenied _ n _
    | .resourceExhausted _ n _ | .inappropriateType _ n _ | .noSuchThing _ n _ => n
    | .unexpectedEof | .userError _ => 38
  (SystemError.ofNumber? number.toInt32.toInt.natAbs).getD .unsupported

/-- What an action of the runtime answers. -/
def attempt {α : Type} (action : IO α) : IO (Except SystemError α) := do
  match ← action.toBaseIO with
  | .ok a => return .ok a
  | .error e => return .error (refusal e)

/-- A path as text; the runtime knows no other paths. -/
def textOf (path : Path) : IO String :=
  match Utf8.decode? path.bytes with
  | some text => return String.ofList text
  | none => throw (.unsupportedOperation 38 "path")

/-- The path that text spells. -/
def pathOf (text : String) : Path := .ofText text.toList

/-- The canonical path of what a path names. -/
def canonical (path : Path) : IO Path := return pathOf (toString (← IO.FS.realPath (← textOf path)))

/-- The entries of a directory; links are not followed. -/
def list (path : Path) : IO (List (FileName × NodeKind)) := do
  let directory ← IO.FS.realPath (← textOf path)
  (← directory.readDir).toList.filterMapM fun entry => do
    let kind := match (← entry.path.symlinkMetadata).type with
      | .dir => NodeKind.directory
      | .symlink => .link
      | _ => .file
    return (FileName.ofBytes? (Utf8.encode entry.fileName.toList)).map (·, kind)

/-- Takes away a directory with everything in it.  A link is only unlinked.  What is inside is taken
away by canonical paths, since the path may lead through it. -/
def removeTree (path : Path) : IO Unit := do
  let text ← textOf path
  if (← (System.mkFilePath [text]).symlinkMetadata).type == .symlink then
    IO.FS.removeFile text
  else
    for entry in ← (← IO.FS.realPath text).readDir do
      if (← entry.path.symlinkMetadata).type == .dir then IO.FS.removeDirAll entry.path
      else IO.FS.removeFile entry.path
    match ← (IO.FS.removeDir text).toBaseIO with
    | .ok () | .error (.noFileOrDirectory ..) => return
    | .error e => throw e

/-- A tree of directories that were looked at, and which those are. -/
abbrev Survey := FileTree × List Path

/-- Puts an entry into the tree of a survey. -/
def Survey.install (s : Survey) (path : Path) (node : Node) : Survey :=
  match s.1.install [] path node with
  | .ok t => (t, s.2)
  | .error _ => s

/-- Notes a link and what it leads to.  One that leads nowhere leads to itself in the survey. -/
def Survey.noteLink (s : Survey) (path : Path) : IO (Survey × Option Path) := do
  match ← (canonical path).toBaseIO with
  | .error _ => return (s.install path (.link path), none)
  | .ok target =>
    let s := s.install path (.link target)
    let s := if (s.1.locate [] target true).isOk then s else s.install target (.file [] false)
    return (s, target)

/-- Looks at everything below a directory, and at what links there lead to. -/
partial def survey (s : Survey) (directory : Path) : IO Survey := do
  if directory ∈ s.2 then return s
  match ← (list directory).toBaseIO with
  | .error _ => return s
  | .ok entries =>
    entries.foldlM (fun s (name, kind) => do
      let path := directory.child name
      match kind with
      | .file => return s.install path (.file [] false)
      | .directory => survey (s.install path .directory) path
      | .link =>
        match ← s.noteLink path with
        | (s, some target) =>
          if (← (list target).toBaseIO).isOk then survey (s.install target .directory) target
          else return s
        | (s, none) => return s)
      (s.install directory .directory |>.map id (directory :: ·))

/-- Whether a path names a link. -/
def isLink (path : Path) : IO Bool := do
  match ← (do (System.mkFilePath [← textOf path]).symlinkMetadata).toBaseIO with
  | .ok metadata => return metadata.type == .symlink
  | .error _ => return false

/-- The paths that a pattern selects.  It is followed through a survey of the links among its exact
front components and of the directory to which those lead. -/
def expand (pattern : Glob.Pattern) : IO (List Path) := do
  let here ← canonical (.ofText ['.'])
  let start ← if pattern.isAbsolute then pure (Path.ofText ['/']) else pure here
  let names := (pattern.parts.map fun
    | .exact name => some name
    | _ => none).takeWhile Option.isSome |>.reduceOption
  let (s, base) ← names.foldlM (fun ((s, path) : Survey × Path) name => do
      let next := path.push (Utf8.encode name)
      if ← isLink next then return ((← s.noteLink next).1, next) else return (s, next))
    (Survey.install (FileTree.empty, []) here .directory, start)
  let (t, _) ← match ← (canonical base).toBaseIO with
    | .error _ => pure s
    | .ok directory => survey s directory
  return Glob.expand t here.location pattern

/-- Answers a request from the file system. -/
def answer : (r : Request) → IO r.Reply
  | .canonicalize path => attempt (canonical path)
  | .list path => attempt (list path)
  | .test path => do
    match ← attempt (canonical path) with
    | .ok _ => return .ok true
    | .error .noEntry => return .ok false
    | .error e => return .error e
  | .link existing new => attempt do IO.FS.hardLink (← textOf existing) (← textOf new)
  | .unlink path => attempt do IO.FS.removeFile (← textOf path)
  | .read path => attempt do return (← IO.FS.readBinFile (← textOf path)).toList
  | .write path content => attempt do IO.FS.writeBinFile (← textOf path) ⟨content.toArray⟩
  | .removeTree path => attempt (removeTree path)
  | .makeDirectories path => attempt do IO.FS.createDirAll (← textOf path)
  | .expand pattern => expand pattern
  | .launch _ _ => return .error .unsupported

/-- Runs a procedure on the file system. -/
def perform {α : Type} : Procedure α → IO α
  | .done result => return result
  | .ask request next => do perform (next (← answer request))

end DualModule.Machine

open DualModule in
/-- Runs a command line. -/
def main (arguments : List String) : IO UInt32 := do
  let outcome ← Machine.perform (CommandLine.run (arguments.map String.toList))
  IO.print (String.ofList outcome.output)
  IO.eprint (String.ofList outcome.errors)
  return .ofNat outcome.exitCode
