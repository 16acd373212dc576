import ColumnMetadata.Files.Tree
import ColumnMetadata.Json.Record
import ColumnMetadata.Report.Basic
import ColumnMetadata.Value.Printer

/-!
# Reports in JSON

The written form of a report, and the reader of written reports. An outcome without a reason is
written without the field; a diagnostic without a file says null.
-/

namespace ColumnMetadata

/-! ## Writing -/

def Value.ofNat (n : Nat) : Value := .number (.integer n)

def Value.ofText? : Option String → Value
  | some s => .string s
  | none => .null

def ReportVersion.toValue (v : ReportVersion) : Value :=
  .object [("major", .ofNat v.major), ("minor", .ofNat v.minor)]

def Summary.toValue (s : Summary) : Value :=
  .object [("updated", .ofNat s.updated), ("unchanged", .ofNat s.unchanged),
    ("skipped", .ofNat s.skipped), ("failed", .ofNat s.failed), ("warnings", .ofNat s.warnings)]

def FileOutcome.toValue (o : FileOutcome) : Value :=
  .object ([("file", .string o.file), ("status", .string o.status.name)] ++
    (o.reason.map fun r => ("reason", Value.string r)).toList)

def Diagnostic.toValue (d : Diagnostic) : Value :=
  .object [("code", .string d.code.name), ("severity", .string d.severity.name),
    ("message", .string d.message), ("file", .ofText? d.file)]

namespace Report

def toValue (r : Report) : Value :=
  .object [("version", r.version.toValue), ("timestamp", .string r.timestamp),
    ("summary", r.summary.toValue), ("files", .array (r.files.map FileOutcome.toValue)),
    ("diagnostics", .array (r.diagnostics.map Diagnostic.toValue))]

def toJson (r : Report) : String := r.toValue.prettyText

def save (r : Report) (t : FileTree) (path : String) : Except FileError FileTree :=
  t.writeText path r.toJson

end Report

/-! ## Reading -/

open Json

/-- The version in a tree; its numbers have 32 bits. -/
def ReportVersion.read? (t : Tree) : Option ReportVersion := do
  match ← t.record? [["major"], ["minor"]] with
  | [major, minor] =>
    let major ← major.required (Tree.natural? UInt32.size)
    let minor ← minor.required (Tree.natural? UInt32.size)
    some ⟨major, minor⟩
  | _ => none

/-- The summary in a tree; its counts have 64 bits. -/
def Summary.read? (t : Tree) : Option Summary := do
  let slots ← t.record? [["updated"], ["unchanged"], ["skipped"], ["failed"], ["warnings"]]
  match ← slots.mapM (Slot.required (Tree.natural? UInt64.size)) with
  | [updated, unchanged, skipped, failed, warnings] =>
    some ⟨updated, unchanged, skipped, failed, warnings⟩
  | _ => none

def FileOutcome.read? (t : Tree) : Option FileOutcome := do
  match ← t.record? [["file"], ["status"], ["reason"]] with
  | [file, status, reason] =>
    let file ← file.required Tree.text?
    let status ← status.required (Tree.choice? FileStatus.ofName?)
    let reason ← reason.omittable (Tree.nullable? Tree.text?)
    some ⟨file, status, reason⟩
  | _ => none

def Diagnostic.read? (t : Tree) : Option Diagnostic := do
  match ← t.record? [["code"], ["severity"], ["message"], ["file"]] with
  | [code, severity, message, file] =>
    let code ← code.required (Tree.choice? DiagnosticCode.ofName?)
    let severity ← severity.required (Tree.choice? Severity.ofName?)
    let message ← message.required Tree.text?
    let file ← file.omittable (Tree.nullable? Tree.text?)
    some ⟨code, severity, message, file⟩
  | _ => none

namespace Report

def read? (t : Tree) : Option Report := do
  match ← t.record? [["version"], ["timestamp"], ["summary"], ["files"], ["diagnostics"]] with
  | [version, timestamp, summary, files, diagnostics] =>
    let version ← version.required ReportVersion.read?
    let timestamp ← timestamp.required Tree.text?
    let summary ← summary.required Summary.read?
    let files ← files.required (Tree.list? FileOutcome.read?)
    let diagnostics ← diagnostics.required (Tree.list? Diagnostic.read?)
    some ⟨version, timestamp, summary, files, diagnostics⟩
  | _ => none

def parse? (text : String) : Option Report := do
  let tree ← Json.read? text.toList
  read? tree

end Report

end ColumnMetadata
