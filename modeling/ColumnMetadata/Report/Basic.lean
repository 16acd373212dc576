/-!
# Reports

What a run did: an outcome for every file, diagnostics, and a summary that counts both. The counts
are kept by the operations that add to a report (`Report.addOutcome`, `Report.addDiagnostic`). Codes
of diagnostics are stable names, which an outcome also gives as its reason.
-/

namespace ColumnMetadata

/-- What a diagnostic is about. -/
inductive DiagnosticCode where
  /-- A file has no configuration block. -/
  | configBlockMissing
  /-- A configuration block cannot be read. -/
  | configParseError
  /-- A file is not part of the compiled project. -/
  | descriptorMissing
  /-- A file cannot be read. -/
  | readFailed
  /-- A dependency is not part of the project. -/
  | dependencyUnresolved
  /-- The file of a dependency cannot be loaded. -/
  | dependencyLoadFailed
  /-- The warehouse has no table for a file. -/
  | warehouseTableMissing
  /-- The warehouse does not have a dataset. -/
  | datasetNotFound
  /-- A file cannot be written. -/
  | writeFailed
deriving DecidableEq, Repr, Inhabited

namespace DiagnosticCode

def name : DiagnosticCode → String
  | configBlockMissing => "CONFIG_BLOCK_MISSING"
  | configParseError => "CONFIG_PARSE_ERROR"
  | descriptorMissing => "DESCRIPTOR_MISSING"
  | readFailed => "READ_FAILED"
  | dependencyUnresolved => "DEPENDENCY_UNRESOLVED"
  | dependencyLoadFailed => "DEPENDENCY_LOAD_FAILED"
  | warehouseTableMissing => "WAREHOUSE_TABLE_MISSING"
  | datasetNotFound => "DATASET_NOT_FOUND"
  | writeFailed => "WRITE_FAILED"

def all : List DiagnosticCode :=
  [configBlockMissing, configParseError, descriptorMissing, readFailed, dependencyUnresolved,
    dependencyLoadFailed, warehouseTableMissing, datasetNotFound, writeFailed]

def ofName? (s : String) : Option DiagnosticCode := all.find? fun c => c.name == s

theorem ofName?_name (c : DiagnosticCode) : ofName? c.name = some c := by
  cases c <;> decide

end DiagnosticCode

/-- How grave a diagnostic is. -/
inductive Severity where
  /-- The run went on without something. -/
  | warn
  /-- A file was not written. -/
  | error
deriving DecidableEq, Repr, Inhabited

namespace Severity

def name : Severity → String
  | warn => "warn"
  | error => "error"

def ofName? (s : String) : Option Severity := [warn, error].find? fun v => v.name == s

theorem ofName?_name (s : Severity) : ofName? s.name = some s := by
  cases s <;> decide

end Severity

/-- A remark on a run. -/
structure Diagnostic where
  code : DiagnosticCode
  severity : Severity
  message : String
  /-- The file that it is about, if it is about one. -/
  file : Option String
deriving DecidableEq, Repr, Inhabited

/-- What became of a file. -/
inductive FileStatus where
  /-- Its block was written anew. -/
  | updated
  /-- There was nothing to write. -/
  | unchanged
  /-- It was left alone. -/
  | skipped
  /-- It could not be completed. -/
  | failed
deriving DecidableEq, Repr, Inhabited

namespace FileStatus

def name : FileStatus → String
  | updated => "updated"
  | unchanged => "unchanged"
  | skipped => "skipped"
  | failed => "failed"

def ofName? (s : String) : Option FileStatus :=
  [updated, unchanged, skipped, failed].find? fun v => v.name == s

theorem ofName?_name (s : FileStatus) : ofName? s.name = some s := by
  cases s <;> decide

end FileStatus

/-- What became of one file. -/
structure FileOutcome where
  file : String
  status : FileStatus
  /-- Why the file was skipped or failed. -/
  reason : Option String
deriving DecidableEq, Repr, Inhabited

/-- How many outcomes and warnings a report has. -/
structure Summary where
  updated : Nat
  unchanged : Nat
  skipped : Nat
  failed : Nat
  warnings : Nat
deriving DecidableEq, Repr, Inhabited

namespace Summary

def empty : Summary := ⟨0, 0, 0, 0, 0⟩

def count (s : Summary) : FileStatus → Summary
  | .updated => { s with updated := s.updated + 1 }
  | .unchanged => { s with unchanged := s.unchanged + 1 }
  | .skipped => { s with skipped := s.skipped + 1 }
  | .failed => { s with failed := s.failed + 1 }

/-- Counts a diagnostic; only warnings count. -/
def countDiagnostic (s : Summary) : Severity → Summary
  | .warn => { s with warnings := s.warnings + 1 }
  | .error => s

def ofStatus (s : Summary) : FileStatus → Nat
  | .updated => s.updated
  | .unchanged => s.unchanged
  | .skipped => s.skipped
  | .failed => s.failed

/-- Counting an outcome adds one to its own status. -/
theorem ofStatus_count (s : Summary) (a b : FileStatus) :
    (s.count a).ofStatus b = s.ofStatus b + if a = b then 1 else 0 := by
  cases a <;> cases b <;> simp [count, ofStatus]

theorem warnings_count (s : Summary) (a : FileStatus) : (s.count a).warnings = s.warnings := by
  cases a <;> rfl

theorem ofStatus_countDiagnostic (s : Summary) (v : Severity) (a : FileStatus) :
    (s.countDiagnostic v).ofStatus a = s.ofStatus a := by
  cases v <;> cases a <;> rfl

end Summary

/-- The version of the form in which reports are written. -/
structure ReportVersion where
  major : Nat
  minor : Nat
deriving DecidableEq, Repr, Inhabited

namespace ReportVersion

def current : ReportVersion := ⟨1, 0⟩

def text (v : ReportVersion) : String := toString v.major ++ "." ++ toString v.minor

end ReportVersion

/-- A report on a run. -/
structure Report where
  version : ReportVersion
  /-- When the run began. -/
  timestamp : String
  summary : Summary
  /-- The outcomes in the order in which files were dealt with. -/
  files : List FileOutcome
  diagnostics : List Diagnostic
deriving DecidableEq, Repr, Inhabited

namespace Report

def start (timestamp : String) : Report := ⟨.current, timestamp, .empty, [], []⟩

def addOutcome (r : Report) (o : FileOutcome) : Report :=
  { r with summary := r.summary.count o.status, files := r.files ++ [o] }

def addDiagnostic (r : Report) (d : Diagnostic) : Report :=
  { r with summary := r.summary.countDiagnostic d.severity, diagnostics := r.diagnostics ++ [d] }

def outcome? (r : Report) (file : String) : Option FileOutcome :=
  r.files.find? fun o => o.file == file

def hasFailures (r : Report) : Bool := 0 < r.summary.failed

end Report

end ColumnMetadata
