import ColumnMetadata.Files.Tree

/-!
# Processes

What running a program comes to: how it ended, what it wrote, and how long it took. A launcher runs
programs in a file tree; it fails with the system's error when there is no such program.
-/

namespace ColumnMetadata

/-- How a process ended. -/
inductive ExitStatus where
  | exited (code : Nat)
  | signalled (signal : Nat)
deriving DecidableEq, Repr, Inhabited

namespace ExitStatus

def success (s : ExitStatus) : Bool := s == .exited 0

def signalNames : List (Nat × String) :=
  [(1, "SIGHUP"), (2, "SIGINT"), (3, "SIGQUIT"), (4, "SIGILL"), (5, "SIGTRAP"), (6, "SIGABRT"),
    (7, "SIGBUS"), (8, "SIGFPE"), (9, "SIGKILL"), (10, "SIGUSR1"), (11, "SIGSEGV"),
    (12, "SIGUSR2"), (13, "SIGPIPE"), (14, "SIGALRM"), (15, "SIGTERM")]

def text : ExitStatus → String
  | exited code => "exit status: " ++ toString code
  | signalled n =>
    "signal: " ++ toString n ++
      ((signalNames.lookup n).map fun name => " (" ++ name ++ ")").getD ""

end ExitStatus

/-- What a process came to. -/
structure ProcessOutput where
  status : ExitStatus
  stdout : List UInt8
  stderr : List UInt8
  /-- The full seconds that it took. -/
  seconds : Nat
deriving DecidableEq, Repr, Inhabited

/-- Runs a program with arguments in a directory of a file tree. -/
abbrev Launcher := FileTree → String → String → List String → Except FileError ProcessOutput

end ColumnMetadata
