import DualModule.Utf8
/-!
# How programs end

A program ends with a code of its own choice or by a signal, and may have complained.

## Main Definitions

* `ExitStatus`, `ExitStatus.message`
* `signalName?`, `signalNumber?`
* `Completion`
-/

namespace DualModule

/-- How a program ended. -/
inductive ExitStatus where
  | code (n : Nat)
  | signal (n : Nat)
deriving DecidableEq

/-- The names of the signals, from the one numbered 1. -/
def signalNames : List String :=
  ["SIGHUP", "SIGINT", "SIGQUIT", "SIGILL", "SIGTRAP", "SIGABRT", "SIGBUS", "SIGFPE", "SIGKILL",
    "SIGUSR1", "SIGSEGV", "SIGUSR2", "SIGPIPE", "SIGALRM", "SIGTERM", "SIGSTKFLT", "SIGCHLD",
    "SIGCONT", "SIGSTOP", "SIGTSTP", "SIGTTIN", "SIGTTOU", "SIGURG", "SIGXCPU", "SIGXFSZ",
    "SIGVTALRM", "SIGPROF", "SIGWINCH", "SIGIO", "SIGPWR", "SIGSYS"]

/-- The name of a signal. -/
def signalName? (n : Nat) : Option String := if n = 0 then none else signalNames[n - 1]?

/-- The number of a signal. -/
def signalNumber? (name : String) : Option Nat := (signalNames.idxOf? name).map (· + 1)

/-- The wording of how a program ended. -/
def ExitStatus.message : ExitStatus → String
  | code n => s!"exit status: {n}"
  | signal n =>
    match signalName? n with
    | some name => s!"signal: {n} ({name})"
    | none => s!"signal: {n}"

/-- What a program leaves behind besides its effect on files. -/
structure Completion where
  status : ExitStatus
  stderr : Bytes
deriving DecidableEq

end DualModule
