import DualModule.Script.Utility
/-!
# Files that can be started

A file can be started if it may be run and says by what: its first line names an interpreter behind
`#!`.  Interpreters are the shell, or one of the utilities, which then gets the file's name as an
argument.

## Main Definitions

* `Script.Executable`
* `Script.executable`: what a name starts
-/

namespace DualModule.Script

/-- What starting a file does. -/
inductive Executable where
  /-- runs the file as a script -/
  | script (options text : Text)
  /-- runs a utility, with these arguments before all others -/
  | utility (name : Text) (arguments : List Text)
  /-- runs the shell, whose arguments say what to do -/
  | shell

/-- The first line behind `#!`: the interpreter, and all that follows it as one argument. -/
def interpreterLine? : Text → Option (Text × Text)
  | '#' :: '!' :: cs =>
    let isSpace (c : Char) : Bool := c = ' ' || c = '\t'
    let line := (cs.takeWhile (· ≠ '\n')).dropWhile isSpace
    let line := (line.reverse.dropWhile isSpace).reverse
    some (line.takeWhile (!isSpace ·), (line.dropWhile (!isSpace ·)).dropWhile isSpace)
  | _ => none

/-- The name of a program of the system, by its path. -/
def systemProgram? (path : Text) : Option Text :=
  ["/bin/", "/usr/bin/"].findSome? fun directory =>
    if directory.toList.isPrefixOf path then some (path.drop directory.length) else none

/-- Whether a program of the system is the shell. -/
def isShell (name : Text) : Bool := ["sh", "bash", "dash"].any (·.toList = name)

/-- What an interpreter makes of the file of a name. -/
def interpreted (interpreter argument name text : Text) : Except SystemError Executable :=
  match systemProgram? interpreter with
  | none => .error .noEntry
  | some program =>
    if isShell program then .ok (.script argument text)
    else if program = "env".toList ∧ isShell argument then .ok (.script [] text)
    else if (utility? program).isSome then
      .ok (.utility program (if argument.isEmpty then [name] else [argument, name]))
    else .error .noEntry

/-- What the name of a program of the system starts. -/
def systemExecutable (name : Text) : Except SystemError Executable :=
  if isShell name then .ok .shell
  else if (utility? name).isSome then .ok (.utility name [])
  else if maxNameLength < name.length then .error .nameTooLong
  else .error .noEntry

/-- What a file starts. -/
def fileExecutable (t : FileTree) (here : Location) (name : Text) :
    Except SystemError Executable := do
  match t.get? (← t.locate here (pathOf name) true) with
  | some (.file content true) =>
    let text := ofBytes content
    match interpreterLine? text with
    | none | some ([], _) => throw .badExecutable
    | some (interpreter, argument) => interpreted interpreter argument name text
  | _ => throw .accessDenied

/-- What a name starts: a file if it is a path, and otherwise a program of the system. -/
def executable (t : FileTree) (here : Location) (name : Text) : Except SystemError Executable :=
  if '/' ∈ name then
    match systemProgram? name with
    | some program => systemExecutable program
    | none => fileExecutable t here name
  else systemExecutable name

end DualModule.Script
