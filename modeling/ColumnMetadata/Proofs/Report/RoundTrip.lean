import ColumnMetadata.Proofs.Json.Printed
import ColumnMetadata.Report.Json

/-!
# Reading reports back

The written form of each part of a report is read as that part: the version and the summary while
their numbers are within the reader's bounds (`Report.InBounds`), outcomes and diagnostics always,
whether a field is left out or null. A report to which outcomes and diagnostics were only added
(`Report.Reachable`) counts no more of them than it has, so it is read back from its JSON form as
long as 64 bits count them (`Report.toJson_reads_back`).
-/

namespace ColumnMetadata

open Json (Slot Tree)

/-! ## The parts of a report -/

theorem ReportVersion.read?_toValue {v : ReportVersion} (hmajor : v.major < UInt32.size)
    (hminor : v.minor < UInt32.size) : read? (.ofValue v.toValue) = some v := by
  have hrecord : Tree.record? [["major"], ["minor"]] (.ofValue v.toValue) =
      some [.given (.ofValue (.ofNat v.major)), .given (.ofValue (.ofNat v.minor))] := by
    refine Tree.record?_ofValue ?_ ["major", "minor"]
    exact (by decide : ["major", "minor"].Nodup)
  have hread {n : Nat} (hn : n < UInt32.size) :
      Tree.natural? UInt32.size (.ofValue (.ofNat n)) = some n :=
    Tree.natural?_ofValue hn (by decide)
  rw [read?, hrecord]
  simp [Slot.required, hread hmajor, hread hminor]

theorem Summary.read?_toValue {s : Summary} (hcounts : ∀ status, s.ofStatus status < UInt64.size)
    (hwarnings : s.warnings < UInt64.size) : read? (.ofValue s.toValue) = some s := by
  have hrecord : Tree.record? [["updated"], ["unchanged"], ["skipped"], ["failed"], ["warnings"]]
      (.ofValue s.toValue) = some ([s.updated, s.unchanged, s.skipped, s.failed, s.warnings].map
        fun n => .given (.ofValue (.ofNat n))) := by
    refine Tree.record?_ofValue ?_ ["updated", "unchanged", "skipped", "failed", "warnings"]
    exact (by decide : ["updated", "unchanged", "skipped", "failed", "warnings"].Nodup)
  have hread {n : Nat} (hn : n < UInt64.size) :
      Tree.natural? UInt64.size (.ofValue (.ofNat n)) = some n :=
    Tree.natural?_ofValue hn (Nat.le_refl _)
  have hupdated : s.updated < UInt64.size := hcounts .updated
  have hunchanged : s.unchanged < UInt64.size := hcounts .unchanged
  have hskipped : s.skipped < UInt64.size := hcounts .skipped
  have hfailed : s.failed < UInt64.size := hcounts .failed
  rw [read?, hrecord]
  simp [Slot.required, hread hupdated, hread hunchanged, hread hskipped, hread hfailed,
    hread hwarnings]

/-- An outcome without a reason is read from an object that leaves the reason out. -/
theorem FileOutcome.record?_toValue (o : FileOutcome) :
    Tree.record? [["file"], ["status"], ["reason"]] (.ofValue o.toValue) =
      some [.given (.ofValue (.string o.file)), .given (.ofValue (.string o.status.name)),
        match o.reason with
        | some reason => .given (.ofValue (.string reason))
        | none => .omitted] := by
  obtain ⟨file, status, reason⟩ := o
  cases reason with
  | none =>
    refine Tree.record?_ofValue ?_ ["file", "status", "reason"]
    exact (by decide : ["file", "status"].Nodup)
  | some reason =>
    refine Tree.record?_ofValue ?_ ["file", "status", "reason"]
    exact (by decide : ["file", "status", "reason"].Nodup)

theorem FileOutcome.read?_toValue (o : FileOutcome) : read? (.ofValue o.toValue) = some o := by
  have hstatus : Tree.choice? FileStatus.ofName? (.ofValue (.string o.status.name)) =
      some o.status := FileStatus.ofName?_name o.status
  rw [read?, o.record?_toValue, Option.bind_eq_bind, Option.bind_some]
  dsimp only [Slot.required]
  rw [hstatus]
  obtain ⟨file, status, reason⟩ := o
  cases reason <;> rfl

theorem Diagnostic.read?_toValue (d : Diagnostic) : read? (.ofValue d.toValue) = some d := by
  have hrecord : Tree.record? [["code"], ["severity"], ["message"], ["file"]]
      (.ofValue d.toValue) = some [.given (.ofValue (.string d.code.name)),
        .given (.ofValue (.string d.severity.name)), .given (.ofValue (.string d.message)),
        .given (.ofValue (.ofText? d.file))] := by
    refine Tree.record?_ofValue ?_ ["code", "severity", "message", "file"]
    exact (by decide : ["code", "severity", "message", "file"].Nodup)
  have hcode : Tree.choice? DiagnosticCode.ofName? (.ofValue (.string d.code.name)) = some d.code :=
    DiagnosticCode.ofName?_name d.code
  have hseverity : Tree.choice? Severity.ofName? (.ofValue (.string d.severity.name)) =
      some d.severity := Severity.ofName?_name d.severity
  have hfile : Tree.nullable? Tree.text? (.ofValue (.ofText? d.file)) = some d.file := by
    cases d.file <;> rfl
  rw [read?, hrecord, Option.bind_eq_bind, Option.bind_some]
  dsimp only [Slot.required, Slot.omittable]
  rw [hcode, hseverity, hfile]
  rfl

/-! ## Whole reports -/

namespace Report

/-- The numbers of a report are within the bounds of its reader. -/
structure InBounds (r : Report) : Prop where
  major : r.version.major < UInt32.size
  minor : r.version.minor < UInt32.size
  outcomes : ∀ status, r.summary.ofStatus status < UInt64.size
  warnings : r.summary.warnings < UInt64.size

theorem read?_toValue {r : Report} (h : r.InBounds) : read? (.ofValue r.toValue) = some r := by
  have hrecord : Tree.record? [["version"], ["timestamp"], ["summary"], ["files"], ["diagnostics"]]
      (.ofValue r.toValue) = some [.given (.ofValue r.version.toValue),
        .given (.ofValue (.string r.timestamp)), .given (.ofValue r.summary.toValue),
        .given (.ofValue (.array (r.files.map FileOutcome.toValue))),
        .given (.ofValue (.array (r.diagnostics.map Diagnostic.toValue)))] := by
    refine Tree.record?_ofValue ?_ ["version", "timestamp", "summary", "files", "diagnostics"]
    exact (by decide : ["version", "timestamp", "summary", "files", "diagnostics"].Nodup)
  have hfiles := Tree.list?_ofValue (l := r.files) fun o _ => o.read?_toValue
  have hdiagnostics := Tree.list?_ofValue (l := r.diagnostics) fun d _ => d.read?_toValue
  rw [read?, hrecord, Option.bind_eq_bind, Option.bind_some]
  dsimp only [Slot.required]
  rw [ReportVersion.read?_toValue h.major h.minor,
    Summary.read?_toValue h.outcomes h.warnings, hfiles, hdiagnostics]
  rfl

/-- Outcomes and diagnostics are written without numbers. -/
theorem numbers_toValue (r : Report) : r.toValue.numbers =
    [r.version.major, r.version.minor, r.summary.updated, r.summary.unchanged, r.summary.skipped,
      r.summary.failed, r.summary.warnings].map fun n => .integer n := by
  have houtcome (o : FileOutcome) : o.toValue.numbers = [] := by
    obtain ⟨file, status, reason⟩ := o
    cases reason <;> rfl
  have hdiagnostic (d : Diagnostic) : d.toValue.numbers = [] := by
    obtain ⟨code, severity, message, file⟩ := d
    cases file <;> rfl
  have hfiles := Value.itemNumbers_map_eq_nil (l := r.files) fun o _ => houtcome o
  have hdiagnostics := Value.itemNumbers_map_eq_nil (l := r.diagnostics) fun d _ => hdiagnostic d
  simp [toValue, ReportVersion.toValue, Summary.toValue, Value.ofNat, Value.numbers,
    Value.fieldNumbers, hfiles, hdiagnostics]

theorem legible_toValue {r : Report} (h : r.InBounds) : ∀ x ∈ r.toValue.numbers, x.Legible := by
  have hsmall : UInt32.size < UInt64.size := by decide
  have hmajor := h.major
  have hminor := h.minor
  rw [numbers_toValue, List.forall_mem_map]
  intro n hn
  refine (Number.isInteger_natCast ?_).rereads.legible
  simp only [List.mem_cons, List.not_mem_nil, or_false] at hn
  rcases hn with rfl | rfl | rfl | rfl | rfl | rfl | rfl
  · omega
  · omega
  · exact h.outcomes .updated
  · exact h.outcomes .unchanged
  · exact h.outcomes .skipped
  · exact h.outcomes .failed
  · exact h.warnings

/-- A report within the bounds is read back from its JSON form. -/
theorem parse?_toJson {r : Report} (h : r.InBounds) : parse? r.toJson = some r := by
  have htree : Json.read? r.toJson.toList = some (.ofValue r.toValue) := by
    rw [toJson, Value.prettyText, String.toList_ofList]
    exact Json.read?_pretty (legible_toValue h) 0
  rw [parse?, htree, Option.bind_eq_bind, Option.bind_some, read?_toValue h]

/-! ## Reports that were added to -/

/-- A report to which outcomes and diagnostics were added, in any order, since its run began. -/
inductive Reachable : Report → Prop
  | start (timestamp : String) : Reachable (start timestamp)
  | addOutcome {r : Report} (h : r.Reachable) (o : FileOutcome) : Reachable (r.addOutcome o)
  | addDiagnostic {r : Report} (h : r.Reachable) (d : Diagnostic) : Reachable (r.addDiagnostic d)

namespace Reachable

variable {r : Report} (h : r.Reachable)

include h in
theorem version : r.version = .current := by
  induction h with
  | start => rfl
  | addOutcome _ _ ih => exact ih
  | addDiagnostic _ _ ih => exact ih

include h in
/-- The summary counts no more outcomes than there are. -/
theorem ofStatus_le (status : FileStatus) : r.summary.ofStatus status ≤ r.files.length := by
  induction h with
  | start => cases status <;> exact Nat.le_refl 0
  | addOutcome _ o ih =>
    simp only [Report.addOutcome, Summary.ofStatus_count, List.length_append, List.length_singleton]
    split <;> omega
  | addDiagnostic _ d ih =>
    simp only [Report.addDiagnostic, Summary.ofStatus_countDiagnostic]
    exact ih

include h in
/-- The summary counts no more warnings than there are diagnostics. -/
theorem warnings_le : r.summary.warnings ≤ r.diagnostics.length := by
  induction h with
  | start => exact Nat.le_refl 0
  | addOutcome _ o ih =>
    simp only [Report.addOutcome, Summary.warnings_count]
    exact ih
  | addDiagnostic _ d ih =>
    obtain ⟨code, severity, message, file⟩ := d
    simp only [Report.addDiagnostic, List.length_append, List.length_singleton]
    cases severity with
    | warn => exact Nat.succ_le_succ ih
    | error => exact Nat.le_succ_of_le ih

include h in
theorem inBounds (hfiles : r.files.length < UInt64.size)
    (hdiagnostics : r.diagnostics.length < UInt64.size) : r.InBounds where
  major := by rw [h.version]; decide
  minor := by rw [h.version]; decide
  outcomes status := Nat.lt_of_le_of_lt (h.ofStatus_le status) hfiles
  warnings := Nat.lt_of_le_of_lt h.warnings_le hdiagnostics

end Reachable

/-- A report to which outcomes and diagnostics were added in any order is read back from its JSON
form, as long as 64 bits count them. -/
theorem toJson_reads_back {r : Report} (h : r.Reachable) (hfiles : r.files.length < UInt64.size)
    (hdiagnostics : r.diagnostics.length < UInt64.size) : parse? r.toJson = some r :=
  parse?_toJson (h.inBounds hfiles hdiagnostics)

/-- A report with optional fields that are there and not there, and with texts that have quotes,
controls and characters beyond one unit. -/
def sampleReport : Report :=
  ((((start "2024-05-01T12:00:00+00:00").addOutcome ⟨"definitions/a.sqlx", .updated, none⟩)
    |>.addDiagnostic ⟨.warehouseTableMissing, .warn, "no \"table\"\n\x01\t😀", some "é\\b.sqlx"⟩)
    |>.addOutcome ⟨"é\\b.sqlx", .skipped, some "\x1f/'"⟩)
    |>.addDiagnostic ⟨.writeFailed, .error, "", none⟩

theorem reachable_sampleReport : sampleReport.Reachable :=
  (((Reachable.start _).addOutcome _ |>.addDiagnostic _).addOutcome _).addDiagnostic _

theorem toJson_reads_back_sample : sampleReport.Reachable ∧
    sampleReport.files.length < UInt64.size ∧ sampleReport.diagnostics.length < UInt64.size ∧
    parse? sampleReport.toJson = some sampleReport := by
  have hfiles : sampleReport.files.length < UInt64.size := by decide
  have hdiagnostics : sampleReport.diagnostics.length < UInt64.size := by decide
  exact ⟨reachable_sampleReport, hfiles, hdiagnostics,
    toJson_reads_back reachable_sampleReport hfiles hdiagnostics⟩

end Report

end ColumnMetadata
