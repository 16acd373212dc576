import ColumnMetadata.Compiler.Process
import ColumnMetadata.Project.Compiled
import ColumnMetadata.Text.Blank

/-!
# Compilers

A compiler says its version and compiles a project. One kind runs a command in the project's
directory (`CompilerCommand`): whatever the command writes to its error output is an error, and so is
a project with graph errors. The other kind always gives the same project.
-/

namespace ColumnMetadata

/-- Why a compiler gives no answer. -/
inductive CompileError where
  | launch (command : String) (cause : FileError)
  | failed (command : String) (status : ExitStatus) (stderr : String)
  | reported (command : String) (stderr : String)
  | timeout (command : String) (seconds : Nat)
  | emptyCommand
  | project (cause : CompiledProjectError)
deriving DecidableEq, Repr, Inhabited

def CompileError.message : CompileError → String
  | launch c cause => "Failed to launch `" ++ c ++ "`: " ++ cause.message
  | failed c status stderr => "`" ++ c ++ "` exited with " ++ status.text ++ ": " ++ stderr
  | reported c stderr => "`" ++ c ++ "` reported errors: " ++ stderr
  | timeout c seconds => "`" ++ c ++ "` timed out after " ++ toString seconds ++ "s"
  | emptyCommand => "Compiler command is empty"
  | project cause => cause.message

/-- A compiler, as a run sees it. -/
structure Compiler where
  version : FileTree → Except CompileError String
  compile : FileTree → Except CompileError CompiledProject

/-- The compiler that always gives one project. -/
def Compiler.fixed (version : String) (p : CompiledProject) : Compiler where
  version _ := .ok version
  compile _ := p.checked.mapError .project

/-- A command that compiles the project in a directory. -/
structure CompilerCommand where
  program : String
  arguments : List String
  directory : String
  /-- The seconds that the command may take. -/
  timeout : Option Nat
deriving DecidableEq, Repr, Inhabited

namespace CompilerCommand

/-- The command that a text names: a program and its first arguments, between blanks. -/
def parse (command directory : String) (timeout : Option Nat) :
    Except CompileError CompilerCommand :=
  match (Text.words command.toList).map String.ofList with
  | [] => .error .emptyCommand
  | program :: arguments => .ok ⟨program, arguments, directory, timeout⟩

def text (c : CompilerCommand) (further : List String) : String :=
  Text.joinStrings " " (c.program :: c.arguments ++ further)

/-- What a finished process says, if it succeeded and wrote nothing but blanks to its error output. -/
def judge (command : String) (o : ProcessOutput) : Except CompileError String :=
  let stderr := String.ofList (Text.trim (Text.ofUtf8Lossy o.stderr).toList)
  if !o.status.success then .error (.failed command o.status stderr)
  else if !stderr.isEmpty then .error (.reported command stderr)
  else .ok (Text.ofUtf8Lossy o.stdout)

def run (c : CompilerCommand) (launch : Launcher) (t : FileTree) (further : List String) :
    Except CompileError String :=
  let command := c.text further
  match launch t c.directory c.program (c.arguments ++ further) with
  | .error cause => .error (.launch command cause)
  | .ok o =>
    match c.timeout with
    | some limit =>
      if limit ≤ o.seconds then .error (.timeout command limit) else judge command o
    | none => judge command o

def version (c : CompilerCommand) (launch : Launcher) (t : FileTree) :
    Except CompileError String :=
  (c.run launch t ["--version"]).map fun s => String.ofList (Text.trim s.toList)

def compile (c : CompilerCommand) (launch : Launcher) (t : FileTree) :
    Except CompileError CompiledProject := do
  let text ← c.run launch t ["compile", "--json"]
  let p ← (CompiledProject.parse text).mapError .project
  p.checked.mapError .project

def compiler (c : CompilerCommand) (launch : Launcher) : Compiler where
  version := c.version launch
  compile := c.compile launch

end CompilerCommand

end ColumnMetadata
