import ColumnMetadata.CommandLine.Help
import ColumnMetadata.Compiler.Basic
import ColumnMetadata.Reconciliation.Basic
import ColumnMetadata.Warehouse.Rows

/-!
# The program

What the program prints and how it ends, for given words in a given file tree. A command finds the
project, its configuration and its settings, and then connects to the warehouse; the client library
for that is not part of this program, so this is where every command ends.
-/

namespace ColumnMetadata.CommandLine

/-- What the program prints, and its status. -/
structure Exit where
  status : Nat
  printed : Printed
deriving DecidableEq, Repr, Inhabited

/-! ## Words that ask for no command -/

/-- The wording of a mistake in the words. -/
def Notice.message : Notice → String
  | unknownCommand w => "unrecognized subcommand '" ++ w ++ "'"
  | unexpectedArgument w => "unexpected argument '" ++ w ++ "' found"
  | missingValue a => "a value is required for '" ++ a.label ++ "' but none was supplied"
  | repeated a => "the argument '" ++ a.label ++ "' cannot be used multiple times"
  | unexpectedValue v a =>
    "unexpected value '" ++ v ++ "' for '" ++ a.label ++ "' found; no more were expected"
  | missingCommand => "'" ++ programName ++ "' requires a subcommand but one was not provided"
  | help _ | nothingAsked | version => ""

/-- What the program does about words that ask for no command. -/
def Notice.exit : Notice → Exit
  | help topic => ⟨0, ⟨topic.helpText, ""⟩⟩
  | version => ⟨0, ⟨programName ++ " " ++ programVersion ++ "\n", ""⟩⟩
  | nothingAsked => ⟨2, ⟨"", Topic.program.helpText⟩⟩
  | n => ⟨2, ⟨"", "error: " ++ n.message ++ "\n\nFor more information, try '--help'.\n"⟩⟩

/-! ## Commands -/

/-- Why a command fails. -/
structure Failure where
  message : String
  cause : Option String
deriving DecidableEq, Repr, Inhabited

def Failure.text (f : Failure) : String :=
  "Error: " ++ f.message ++ (f.cause.map fun c => "\n\nCaused by:\n    " ++ c).getD "" ++ "\n"

def Failure.plain (message : String) : Failure := ⟨message, none⟩

def openProject (t : FileTree) (i : Invocation) : Except Failure Configuration := do
  let root ← (t.canonical i.projectDir).mapError fun e =>
    ⟨"Project directory " ++ i.projectDir ++ " not found", some e.message⟩
  let c ← match i.config with
    | some path => (Configuration.load t path).mapError fun e =>
        ⟨"Failed to load " ++ path, some e.message⟩
    | none => (Configuration.discover t root).mapError fun e => .plain e.message
  .ok { c with root }

/-- What a command needs before it connects to the warehouse. -/
def prepare (t : FileTree) (c : Configuration) : Except Failure CompilerCommand := do
  let settings ← (WorkflowSettings.load t c.root).mapError fun e => .plain e.message
  let _ ← (warehouseProject c settings).mapError fun e => .plain e.message
  (CompilerCommand.parse c.compiler.command c.root c.compiler.timeout).mapError fun e =>
    .plain e.message

/-- Why a command fails in an opened project. -/
def obstacle (t : FileTree) (c : Configuration) : Failure :=
  match prepare t c with
  | .error f => f
  | .ok _ => .plain BigQuery.noClient.message

def carryOut (t : FileTree) (color : Bool) (i : Invocation) : Exit :=
  match openProject t i with
  | .error f => ⟨1, ⟨"", f.text⟩⟩
  | .ok c =>
    let shown := if i.verbose then paint color cyan "Project:" ++ " " ++ c.root ++ "\n" else ""
    ⟨1, ⟨"", shown ++ (obstacle t c).text⟩⟩

def run (t : FileTree) (color : Bool) (words : List String) : Exit :=
  match parse words with
  | .error n => n.exit
  | .ok i => carryOut t color i

end ColumnMetadata.CommandLine
