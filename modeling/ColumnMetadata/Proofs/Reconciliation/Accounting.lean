import ColumnMetadata.Proofs.Project.Requests
import ColumnMetadata.Proofs.Reconciliation.Solution

/-!
# What a report accounts for

The operations that add to a report keep its parts in agreement (`Report.Accounted`): the summary
counts the outcomes and the warnings, each error is the reason of one failed outcome, and behind
each skipped outcome there is a warning. A run that comes to an end only uses these operations, and
it adds one outcome for each file that was discovered: those without a node when the graph is built,
the others when their nodes are merged (`Reconciliation.report_accounts_for_files`).
-/

namespace ColumnMetadata

/-! ## Reports -/

namespace Report

/-- The summary, the outcomes and the diagnostics of a report agree. -/
structure Accounted (r : Report) : Prop where
  outcomes : ∀ status, r.summary.ofStatus status = r.files.countP fun o => o.status = status
  warnings : r.summary.warnings = r.diagnostics.countP fun d => d.severity = .warn
  /-- The errors are the failed outcomes, in the same order. -/
  errors : (r.diagnostics.filter fun d => d.severity = .error).map
      (fun d => (d.file, some d.code.name)) =
    (r.files.filter fun o => o.status = .failed).map fun o => (some o.file, o.reason)
  skipped : ∀ o ∈ r.files, o.status = .skipped → ∃ d ∈ r.diagnostics,
    d.severity = .warn ∧ d.file = some o.file ∧ o.reason = some d.code.name
  completed : ∀ o ∈ r.files, o.status = .updated ∨ o.status = .unchanged → o.reason = none

theorem accounted_start (timestamp : String) : (start timestamp).Accounted where
  outcomes status := by cases status <;> rfl
  warnings := rfl
  errors := rfl
  skipped := nofun
  completed := nofun

namespace Accounted

variable {r : Report} (h : r.Accounted)

include h in
theorem warn {d : Diagnostic} (hd : d.severity = .warn) : (r.addDiagnostic d).Accounted where
  outcomes status := by
    rw [addDiagnostic, ← h.outcomes status, hd]
    cases status <;> rfl
  warnings := by simp [addDiagnostic, hd, h.warnings, Summary.countDiagnostic]
  errors := by simpa [addDiagnostic, hd] using h.errors
  skipped o ho hs := by
    obtain ⟨d', hd', hrest⟩ := h.skipped o ho hs
    exact ⟨d', List.mem_append_left _ hd', hrest⟩
  completed := h.completed

include h in
/-- The counts behind one more outcome. -/
theorem outcomes_addOutcome (o : FileOutcome) (status : FileStatus) :
    (r.addOutcome o).summary.ofStatus status =
      (r.addOutcome o).files.countP fun o => o.status = status := by
  simp only [addOutcome, Summary.ofStatus_count, h.outcomes, List.countP_append,
    List.countP_singleton, decide_eq_true_eq]

theorem warnings_addOutcome (r : Report) (o : FileOutcome) :
    (r.addOutcome o).summary.warnings = r.summary.warnings :=
  r.summary.warnings_count o.status

include h in
/-- One more file that was not given up. -/
theorem complete (file : String) {status : FileStatus}
    (hs : status = .updated ∨ status = .unchanged) :
    (r.addOutcome ⟨file, status, none⟩).Accounted where
  outcomes := h.outcomes_addOutcome _
  warnings := (warnings_addOutcome r _).trans h.warnings
  errors := by
    have hfailed : status ≠ .failed := by rcases hs with rfl | rfl <;> decide
    simpa [addOutcome, hfailed] using h.errors
  skipped := by
    have hskipped : status ≠ .skipped := by rcases hs with rfl | rfl <;> decide
    exact List.forall_mem_append.2 ⟨h.skipped, List.forall_mem_singleton.2 (absurd · hskipped)⟩
  completed := List.forall_mem_append.2 ⟨h.completed, List.forall_mem_singleton.2 fun _ => rfl⟩

include h in
theorem skip (code : DiagnosticCode) (file message : String) :
    (r.skip code file message).Accounted := by
  have hwarned : (r.warn code file message).Accounted := h.warn rfl
  refine ⟨hwarned.outcomes_addOutcome _, (warnings_addOutcome _ _).trans hwarned.warnings, ?_,
    List.forall_mem_append.2 ⟨hwarned.skipped, List.forall_mem_singleton.2 fun _ => ?_⟩,
    List.forall_mem_append.2 ⟨hwarned.completed, List.forall_mem_singleton.2 nofun⟩⟩
  · simpa [Report.skip, addOutcome] using hwarned.errors
  · exact ⟨_, List.mem_append_right _ List.mem_cons_self, rfl, rfl, rfl⟩

include h in
/-- An error and the outcome that it is the reason of. -/
theorem fail (code : DiagnosticCode) (file message : String) :
    (r.fail code file message).Accounted where
  outcomes status := by
    have houtcomes : ∀ status, r.summary.ofStatus status =
        r.files.countP fun o => o.status = status := h.outcomes
    simp only [Report.fail, addOutcome, addDiagnostic, Summary.countDiagnostic,
      Summary.ofStatus_count, houtcomes, List.countP_append, List.countP_singleton,
      decide_eq_true_eq]
  warnings := by
    rw [Report.fail, warnings_addOutcome]
    simpa [addOutcome, addDiagnostic, Summary.countDiagnostic] using h.warnings
  errors := by simp [Report.fail, addOutcome, addDiagnostic, h.errors]
  skipped := by
    refine List.forall_mem_append.2 ⟨fun o ho hs => ?_, List.forall_mem_singleton.2 nofun⟩
    obtain ⟨d, hd, hrest⟩ := h.skipped o ho hs
    exact ⟨d, List.mem_append_left _ hd, hrest⟩
  completed := List.forall_mem_append.2 ⟨h.completed, List.forall_mem_singleton.2 nofun⟩

include h in
theorem addIssue (i : GraphIssue LoadError) : (r.addIssue i).Accounted := by
  match i with
  | .descriptorMissing file => exact h.skip _ file _
  | .dependencyUnresolved _ _ | .loadFailed _ false _ => exact h.warn rfl
  | .loadFailed file true e => exact h.fail e.code file e.message

include h in
theorem addIssues (is : List (GraphIssue LoadError)) : (is.foldl Report.addIssue r).Accounted := by
  induction is generalizing r with
  | nil => exact h
  | cons i is ih => exact ih (h.addIssue i)

include h in
/-- A dataset that does not exist is warned about. -/
theorem collectListings {report : Report}
    {answers : List (String × Except FetchError (List WarehouseTable))}
    {tables : List WarehouseTable} (hlisted : collectListings r answers = .ok (tables, report)) :
    report.Accounted := by
  induction answers generalizing r tables with
  | nil =>
    cases hlisted
    exact h
  | cons a answers ih =>
    obtain ⟨dataset, e | listed⟩ := a
    · cases e with
      | datasetNotFound name => exact ih (h.warn rfl) hlisted
      | _ => cases hlisted
    · obtain ⟨⟨tables', report'⟩, hrest, hlisted⟩ := bind_eq_ok.1 hlisted
      cases hlisted
      exact ih h hrest

end Accounted

end Report

namespace GraphIssue

theorem map_file_outcome? (i : GraphIssue LoadError) :
    i.outcome?.map FileOutcome.file = i.settled? := by
  match i with
  | .descriptorMissing _ | .dependencyUnresolved _ _ | .loadFailed _ true _
  | .loadFailed _ false _ => rfl

end GraphIssue

/-! ## Nodes -/

namespace Reconciliation

variable (r : Reconciliation) (refused : Refusals) (tables : List WarehouseTable)

theorem accounted_writeFile (file old new : String) {s : FileTree × Report} (h : s.2.Accounted) :
    (r.writeFile refused file old new s).2.Accounted := by
  unfold writeFile
  split
  · exact h.complete file (.inr rfl)
  · split
    · exact h.complete file (.inl rfl)
    · exact h.fail _ file _

theorem accounted_conclude (n : GraphNode Definition) (cs : Columns) {s : FileTree × Report}
    (h : s.2.Accounted) : (r.conclude refused tables n cs s).2.Accounted := by
  unfold conclude
  dsimp only
  split
  · exact h.skip _ _ _
  · exact h.skip _ _ _
  · exact r.accounted_writeFile refused _ _ _ h

/-- Dealing with a node adds one outcome, that of its file. -/
theorem map_file_conclude (n : GraphNode Definition) (cs : Columns) (s : FileTree × Report) :
    (r.conclude refused tables n cs s).2.files.map FileOutcome.file =
      s.2.files.map FileOutcome.file ++ [n.action.fileName] := by
  cases hnew : rewritten? tables n cs with
  | none => rw [(r.conclude_of_not_rewritten refused tables hnew s).2, List.map_append]; rfl
  | some new =>
    rw [r.conclude_of_rewritten refused tables hnew]
    rcases r.writeFile_cases refused n.action.fileName n.content.text new s with
      ⟨-, -, hfiles⟩ | ⟨-, -, hfiles⟩ | ⟨-, -, -, hfiles⟩
    · rw [hfiles, List.map_append]; rfl
    · rw [hfiles, List.map_append]; rfl
    · rw [hfiles, List.map_append]; rfl

variable {g : DefinitionGraph Definition} (final : Nat → Columns)

theorem accounted_foldl {ids : List Nat} {s : FileTree × Report} (h : s.2.Accounted) :
    (ids.foldl (r.concludeNode refused tables g final) s).2.Accounted := by
  induction ids generalizing s with
  | nil => exact h
  | cons id ids ih =>
    refine ih ?_
    unfold concludeNode
    split
    · exact h
    · exact r.accounted_conclude refused tables _ _ h

theorem map_file_foldl {ids : List Nat} (hids : ∀ id ∈ ids, ∃ n, g.node? id = some n)
    (s : FileTree × Report) :
    (ids.foldl (r.concludeNode refused tables g final) s).2.files.map FileOutcome.file =
      s.2.files.map FileOutcome.file ++ ids.map g.file := by
  induction ids generalizing s with
  | nil => exact (List.append_nil _).symm
  | cons id ids ih =>
    obtain ⟨⟨n, hn⟩, hids⟩ := List.forall_mem_cons.1 hids
    have hfile : g.file id = n.action.fileName := by rw [DefinitionGraph.file, hn]; rfl
    rw [List.foldl_cons, ih hids, concludeNode, hn]
    dsimp only
    rw [r.map_file_conclude refused tables, List.map_cons, hfile, List.append_assoc]
    rfl

end Reconciliation

/-! ## Runs -/

/-- The files that the issues of a plan dispose of and those of its order are the discovered ones,
each once. -/
theorem Plan.Made.perm_files {r : Reconciliation} {t : FileTree} {path : String} {p : Plan}
    (h : p.Made r t path) :
    (p.build.issues.filterMap GraphIssue.settled? ++ p.order.map p.build.graph.file).Perm
      p.files.eraseDups := by
  have horder : p.order.Perm p.build.graph.requested :=
    (List.perm_ext_iff_of_nodup h.ordering.nodup DefinitionGraph.nodup_requested).2 h.ordering.mem
  have hfiles := horder.map p.build.graph.file
  rw [GraphBuild.map_file_requested] at hfiles
  obtain ⟨compiled, -, hbuild⟩ := h.build
  refine (List.Perm.append_left _ hfiles).trans ?_
  rw [hbuild]
  exact (GraphBuild.settled_run compiled p.files _).partition

namespace Reconciliation

/-- A run that comes to an end has one outcome for each file that was discovered. -/
theorem perm_files_of_runAmid {r : Reconciliation} {meanwhile : FileTree → FileTree}
    {refused : Refusals} {timestamp path : String} {t : FileTree} {m : Merging}
    (h : (r.runAmid meanwhile timestamp t path refused).result = .ok m) :
    ∃ files, r.configuration.definitionFiles t path = .ok files ∧
      (m.report.files.map FileOutcome.file).Perm files.eraseDups := by
  obtain ⟨p, tables, report, hplan, hlisted, -, hm⟩ := runAmid_eq_ok h
  have hmade := Plan.made_of_plan hplan
  rw [r.mergeAll_eq refused tables hmade.ordering] at hm
  refine ⟨p.files, hmade.files, (List.Perm.of_eq ?_).trans hmade.perm_files⟩
  rw [hm]
  dsimp only
  rw [r.map_file_foldl refused tables _ fun id hid => (hmade.exists_node hid).imp fun _ hn => hn.1,
    files_of_collectListings hlisted, Plan.files_report, List.map_filterMap]
  simp only [GraphIssue.map_file_outcome?]

/-- A run that comes to an end has no two outcomes for one file. -/
theorem nodup_files_of_runAmid {r : Reconciliation} {meanwhile : FileTree → FileTree}
    {refused : Refusals} {timestamp path : String} {t : FileTree} {m : Merging}
    (h : (r.runAmid meanwhile timestamp t path refused).result = .ok m) :
    (m.report.files.map FileOutcome.file).Nodup := by
  obtain ⟨files, -, hperm⟩ := perm_files_of_runAmid h
  exact hperm.symm.nodup (nodup_eraseDups files)

/-- A run that comes to an end reports once on each file that was discovered and on no other, and
the parts of its report agree. -/
theorem report_accounts_for_files {r : Reconciliation} {meanwhile : FileTree → FileTree}
    {refused : Refusals} {timestamp path : String} {t : FileTree} {m : Merging}
    (h : (r.runAmid meanwhile timestamp t path refused).result = .ok m) :
    m.report.Accounted ∧ ∃ files, r.configuration.definitionFiles t path = .ok files ∧
      ∀ file, (m.report.files.countP fun o => o.file == file) = if file ∈ files then 1 else 0 := by
  constructor
  · obtain ⟨p, tables, report, hplan, hlisted, -, hm⟩ := runAmid_eq_ok h
    have hstart : (p.report timestamp).Accounted := (Report.accounted_start timestamp).addIssues _
    rw [r.mergeAll_eq refused tables (Plan.made_of_plan hplan).ordering] at hm
    rw [hm]
    exact r.accounted_foldl refused tables _ (hstart.collectListings hlisted)
  · obtain ⟨files, hfiles, hperm⟩ := perm_files_of_runAmid h
    refine ⟨files, hfiles, fun file => ?_⟩
    have hcount := hperm.count_eq file
    rw [List.count_eq_countP, List.countP_map, (nodup_eraseDups files).count] at hcount
    simpa [List.mem_eraseDups, Function.comp_def] using hcount

/-- One file may not be replaced, and the other one is updated. -/
theorem report_accounts_for_files_sample :
    ∃ m, (sample.runAmid id "now" sampleTree "definitions" (sampleRefusals "b.sqlx")).result =
        .ok m ∧
      m.report.files = [⟨"definitions/b.sqlx", .failed, some "WRITE_FAILED"⟩,
        ⟨"definitions/a.sqlx", .updated, none⟩] ∧
      m.report.Accounted ∧
      ∃ files, sample.configuration.definitionFiles sampleTree "definitions" = .ok files ∧
        ∀ file,
          (m.report.files.countP fun o => o.file == file) = if file ∈ files then 1 else 0 := by
  obtain ⟨m, hm, hfiles⟩ : ∃ m,
      (sample.runAmid id "now" sampleTree "definitions" (sampleRefusals "b.sqlx")).result =
        .ok m ∧
      decide (m.report.files = [⟨"definitions/b.sqlx", .failed, some "WRITE_FAILED"⟩,
        ⟨"definitions/a.sqlx", .updated, none⟩]) = true := exists_ok_of_any (by decide +kernel)
  exact ⟨m, hm, of_decide_eq_true hfiles, report_accounts_for_files hm⟩

end Reconciliation

end ColumnMetadata
