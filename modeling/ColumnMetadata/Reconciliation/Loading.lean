import ColumnMetadata.Definition.File
import ColumnMetadata.Project.Graph
import ColumnMetadata.Reconciliation.Basic
import ColumnMetadata.Report.Basic

/-!
# Loading definition files

Reading the files of a graph, and what the report says about those that the graph does without. A
requested file that is missing in the project is skipped, one that cannot be loaded has failed; a
dependency that cannot be found or loaded is only warned about.
-/

namespace ColumnMetadata

/-- Why a definition file cannot be loaded. -/
inductive LoadError where
  | read (file : String) (cause : FileError)
  | missingBlock (file : String)
  | malformed (file : String) (cause : DefinitionError)
deriving DecidableEq, Repr, Inhabited

namespace LoadError

def code : LoadError → DiagnosticCode
  | read _ _ => .readFailed
  | missingBlock _ => .configBlockMissing
  | malformed _ _ => .configParseError

def message : LoadError → String
  | read file cause => "Failed to read " ++ file ++ ": " ++ cause.message
  | missingBlock file => "No config block found in " ++ file
  | malformed file cause => "Failed to parse config in " ++ file ++ ": " ++ cause.message

end LoadError

/-- Checks a definition against the policy for files without a block. -/
def MissingBlockPolicy.admit (policy : MissingBlockPolicy) (file : String) (d : Definition) :
    Except LoadError Definition :=
  match policy, d.block with
  | .strict, none => .error (.missingBlock file)
  | _, _ => .ok d

def Reconciliation.load (r : Reconciliation) (t : FileTree) (a : ActionDescriptor) :
    Except LoadError Definition := do
  let text ← (t.readText (r.configuration.resolve a.fileName)).mapError (.read a.fileName)
  let d ← (Definition.parse text).mapError (.malformed a.fileName)
  r.options.missingBlock.admit a.fileName d

namespace Report

def warn (r : Report) (code : DiagnosticCode) (file message : String) : Report :=
  r.addDiagnostic ⟨code, .warn, message, some file⟩

/-- Adds a warning about a file that is skipped for it. -/
def skip (r : Report) (code : DiagnosticCode) (file message : String) : Report :=
  (r.warn code file message).addOutcome ⟨file, .skipped, some code.name⟩

/-- Adds an error in a file that has failed for it. -/
def fail (r : Report) (code : DiagnosticCode) (file message : String) : Report :=
  (r.addDiagnostic ⟨code, .error, message, some file⟩).addOutcome ⟨file, .failed, some code.name⟩

def addIssue (r : Report) : GraphIssue LoadError → Report
  | .descriptorMissing file =>
    r.skip .descriptorMissing file "File is not part of the compiled project"
  | .dependencyUnresolved file target =>
    r.warn .dependencyUnresolved file
      ("Dependency " ++ target.text ++ " matches no table or declaration")
  | .loadFailed file true e => r.fail e.code file e.message
  | .loadFailed file false e => r.warn .dependencyLoadFailed file e.message

end Report

end ColumnMetadata
