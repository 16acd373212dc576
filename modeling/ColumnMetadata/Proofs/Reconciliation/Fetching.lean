import ColumnMetadata.Proofs.Reconciliation.Accounting

/-!
# What is asked of the warehouse, and what comes of the answers

A run with a plan lists each dataset of its requested nodes and of their dependencies once, and no
other. Among the answers only a failure that ends the run (`FetchError.EndsRun`) keeps it from going
on, and of several the first in the order of the datasets counts (`collectListings_eq_error_iff`).
Else each dataset that does not exist is warned about (`Report.missingDatasets`), and a file is
skipped for want of a table exactly when no answer holds its table
(`Reconciliation.listing_covers_datasets`).
-/

namespace ColumnMetadata

/-! ## Failures -/

/-- A failure to list a dataset that ends a run: any but that there is no such dataset. -/
def FetchError.EndsRun (e : FetchError) : Prop := ∀ name, e ≠ .datasetNotFound name

theorem listed?_eq_none_iff {answer : Except FetchError (List WarehouseTable)} :
    listed? answer = none ↔ ∃ cause, answer = .error cause ∧ cause.EndsRun := by
  match answer with
  | .ok tables => exact ⟨nofun, nofun⟩
  | .error (.datasetNotFound name) =>
    refine ⟨nofun, ?_⟩
    rintro ⟨_, ⟨⟩, hends⟩
    exact absurd rfl (hends name)
  | .error (.authentication _) | .error (.permissionDenied _) | .error (.query _)
  | .error (.invalidResponse _) | .error (.network _) | .error (.timeout _ _)
  | .error (.configuration _) => exact ⟨fun _ => ⟨_, rfl, nofun⟩, fun _ => rfl⟩

theorem isSome_listed?_iff {answer : Except FetchError (List WarehouseTable)} :
    (listed? answer).isSome = true ↔
      ∀ cause, answer = .error cause → ∃ name, cause = .datasetNotFound name := by
  rw [Option.isSome_iff_ne_none, Ne, listed?_eq_none_iff, not_exists]
  apply forall_congr'
  intro cause
  rw [not_and, FetchError.EndsRun, not_forall]
  exact imp_congr_right fun _ => exists_congr fun _ => not_not

theorem collectListings_of_endsRun (report : Report) (dataset : String) {cause : FetchError}
    (h : cause.EndsRun) (answers : List (String × Except FetchError (List WarehouseTable))) :
    collectListings report ((dataset, .error cause) :: answers) =
      .error (.listing dataset cause) := by
  cases cause with
  | datasetNotFound name => exact absurd rfl (h name)
  | _ => rfl

/-- An answer that does not end the run leaves it to the others whether the run ends. -/
theorem exists_collectListings_cons (report : Report) (dataset : String)
    {answer : Except FetchError (List WarehouseTable)} (h : (listed? answer).isSome = true)
    (answers : List (String × Except FetchError (List WarehouseTable))) (e : RunError) :
    ∃ report', collectListings report ((dataset, answer) :: answers) = .error e ↔
      collectListings report' answers = .error e := by
  match answer with
  | .ok tables =>
    refine ⟨report, ?_⟩
    rw [collectListings, bind_eq_error]
    refine or_iff_left ?_
    rintro ⟨_, -, ⟨⟩⟩
  | .error (.datasetNotFound name) => exact ⟨_, Iff.rfl⟩
  | .error (.authentication _) | .error (.permissionDenied _) | .error (.query _)
  | .error (.invalidResponse _) | .error (.network _) | .error (.timeout _ _)
  | .error (.configuration _) => cases h

/-- The run ends with the first failure that ends a run, and with none if there is no such failure.
-/
theorem collectListings_eq_error_iff {report : Report}
    {answers : List (String × Except FetchError (List WarehouseTable))} {e : RunError} :
    collectListings report answers = .error e ↔ ∃ before dataset cause after,
      answers = before ++ (dataset, .error cause) :: after ∧ cause.EndsRun ∧
        (∀ a ∈ before, (listed? a.2).isSome = true) ∧ e = .listing dataset cause := by
  induction answers generalizing report with
  | nil =>
    refine ⟨nofun, ?_⟩
    rintro ⟨before, _, _, _, hnil, -⟩
    cases before <;> cases hnil
  | cons a answers ih =>
    obtain ⟨dataset, answer⟩ := a
    cases hlisted : listed? answer with
    | none =>
      obtain ⟨cause, rfl, hends⟩ := listed?_eq_none_iff.1 hlisted
      rw [collectListings_of_endsRun report dataset hends]
      constructor
      · rintro ⟨⟩
        exact ⟨[], dataset, cause, answers, rfl, hends, nofun, rfl⟩
      · rintro ⟨before, dataset', cause', after, hanswers, -, hbefore, rfl⟩
        cases before with
        | nil =>
          cases hanswers
          rfl
        | cons b before =>
          cases hanswers
          have hfirst := hbefore _ List.mem_cons_self
          rw [hlisted] at hfirst
          cases hfirst
    | some tables =>
      have hsome : (listed? answer).isSome = true := by rw [hlisted]; rfl
      obtain ⟨report', hrest⟩ := exists_collectListings_cons report dataset hsome answers e
      rw [hrest, ih]
      constructor
      · rintro ⟨before, dataset', cause, after, rfl, hends, hbefore, he⟩
        exact ⟨(dataset, answer) :: before, dataset', cause, after, rfl, hends,
          List.forall_mem_cons.2 ⟨hsome, hbefore⟩, he⟩
      · rintro ⟨before, dataset', cause, after, hanswers, hends, hbefore, he⟩
        cases before with
        | nil =>
          cases hanswers
          exact absurd hlisted (by rw [listed?_eq_none_iff.2 ⟨cause, rfl, hends⟩]; nofun)
        | cons b before =>
          cases hanswers
          exact ⟨before, dataset', cause, after, rfl, hends,
            (List.forall_mem_cons.1 hbefore).2, he⟩

/-! ## Remarks -/

/-- The dataset that an answer says does not exist. -/
def missing? : Except FetchError (List WarehouseTable) → Option String
  | .error (.datasetNotFound name) => some name
  | _ => none

/-- The remark that a dataset does not exist. -/
def missingDataset (name : String) : Diagnostic :=
  ⟨.datasetNotFound, .warn, "Dataset " ++ name ++ " not found", none⟩

namespace Report

/-- The remarks of a report on datasets that do not exist. -/
def missingDatasets (r : Report) : List Diagnostic :=
  r.diagnostics.filter fun d => d.code = .datasetNotFound

variable (r : Report)

theorem missingDatasets_addDiagnostic_of_ne {d : Diagnostic} (h : d.code ≠ .datasetNotFound) :
    (r.addDiagnostic d).missingDatasets = r.missingDatasets := by
  rw [missingDatasets, addDiagnostic, List.filter_append, List.filter_singleton,
    decide_eq_false h]
  exact List.append_nil _

theorem missingDatasets_addDiagnostic (name : String) :
    (r.addDiagnostic (missingDataset name)).missingDatasets =
      r.missingDatasets ++ [missingDataset name] :=
  List.filter_append _ _

theorem missingDatasets_skip {code : DiagnosticCode} (h : code ≠ .datasetNotFound)
    (file message : String) : (r.skip code file message).missingDatasets = r.missingDatasets :=
  r.missingDatasets_addDiagnostic_of_ne h

theorem missingDatasets_fail {code : DiagnosticCode} (h : code ≠ .datasetNotFound)
    (file message : String) : (r.fail code file message).missingDatasets = r.missingDatasets :=
  r.missingDatasets_addDiagnostic_of_ne h

theorem missingDatasets_addIssue (i : GraphIssue LoadError) :
    (r.addIssue i).missingDatasets = r.missingDatasets := by
  match i with
  | .descriptorMissing file =>
    have hcode : DiagnosticCode.descriptorMissing ≠ .datasetNotFound := nofun
    exact r.missingDatasets_skip hcode file _
  | .dependencyUnresolved _ _ | .loadFailed _ false _ =>
    exact r.missingDatasets_addDiagnostic_of_ne nofun
  | .loadFailed file true e => exact r.missingDatasets_fail (by cases e <;> exact nofun) file _

/-- The issues of a graph are about files. -/
theorem missingDatasets_addIssues (is : List (GraphIssue LoadError)) :
    (is.foldl addIssue r).missingDatasets = r.missingDatasets := by
  induction is generalizing r with
  | nil => rfl
  | cons i is ih => rw [List.foldl_cons, ih, missingDatasets_addIssue]

end Report

/-- Each answer that a dataset does not exist gives one remark. -/
theorem missingDatasets_of_collectListings {report report' : Report}
    {answers : List (String × Except FetchError (List WarehouseTable))}
    {tables : List WarehouseTable} (h : collectListings report answers = .ok (tables, report')) :
    report'.missingDatasets = report.missingDatasets ++
      (answers.filterMap fun a => missing? a.2).map missingDataset := by
  induction answers generalizing report tables with
  | nil =>
    cases h
    exact (List.append_nil _).symm
  | cons a answers ih =>
    obtain ⟨dataset, answer⟩ := a
    match answer with
    | .ok listed =>
      obtain ⟨⟨rest, report''⟩, hrest, h⟩ := bind_eq_ok.1 h
      cases h
      exact ih hrest
    | .error (.datasetNotFound name) =>
      have hrest : collectListings (report.addDiagnostic (missingDataset name)) answers =
        .ok (tables, report') := h
      rw [ih hrest, Report.missingDatasets_addDiagnostic, List.append_assoc]
      rfl
    | .error (.authentication _) | .error (.permissionDenied _) | .error (.query _)
    | .error (.invalidResponse _) | .error (.network _) | .error (.timeout _ _)
    | .error (.configuration _) => cases h

namespace Reconciliation

variable (r : Reconciliation) (refused : Refusals) (tables : List WarehouseTable)

theorem missingDatasets_writeFile (file old new : String) (s : FileTree × Report) :
    (r.writeFile refused file old new s).2.missingDatasets = s.2.missingDatasets := by
  unfold writeFile
  split
  · rfl
  · split
    · rfl
    · next cause _ =>
      have hcode : DiagnosticCode.writeFailed ≠ .datasetNotFound := nofun
      exact s.2.missingDatasets_fail hcode file _

theorem missingDatasets_conclude (n : GraphNode Definition) (cs : Columns)
    (s : FileTree × Report) :
    (r.conclude refused tables n cs s).2.missingDatasets = s.2.missingDatasets := by
  unfold conclude
  dsimp only
  split
  · have hcode : DiagnosticCode.configBlockMissing ≠ .datasetNotFound := nofun
    exact s.2.missingDatasets_skip hcode _ _
  · have hcode : DiagnosticCode.warehouseTableMissing ≠ .datasetNotFound := nofun
    exact s.2.missingDatasets_skip hcode _ _
  · exact r.missingDatasets_writeFile refused _ _ _ s

/-- Dealing with files adds no remark on a dataset. -/
theorem missingDatasets_foldl (g : DefinitionGraph Definition) (final : Nat → Columns)
    (ids : List Nat) (s : FileTree × Report) :
    (ids.foldl (r.concludeNode refused tables g final) s).2.missingDatasets =
      s.2.missingDatasets := by
  induction ids generalizing s with
  | nil => rfl
  | cons id ids ih =>
    rw [List.foldl_cons, ih]
    unfold concludeNode
    split
    · rfl
    · exact r.missingDatasets_conclude refused tables _ _ s

end Reconciliation

/-! ## Missing tables -/

theorem findTable?_eq_none_iff {tables : List WarehouseTable} {dataset name : String} :
    findTable? tables dataset name = none ↔
      ∀ t ∈ tables, ¬(t.dataset = dataset ∧ t.name = name) := by
  rw [findTable?, List.getLast?_eq_none_iff, List.filter_eq_nil_iff]
  simp only [Bool.and_eq_true, beq_iff_eq]

/-- The outcome of a file that there is no table for. -/
def tableMissing (file : String) : FileOutcome :=
  ⟨file, .skipped, some DiagnosticCode.warehouseTableMissing.name⟩

namespace Reconciliation

variable (r : Reconciliation) (refused : Refusals) (tables : List WarehouseTable)

/-- A node has one outcome, which tells whether it has a block but no table. -/
theorem exists_outcome_conclude (n : GraphNode Definition) (cs : Columns)
    (s : FileTree × Report) :
    ∃ o, (r.conclude refused tables n cs s).2.files = s.2.files ++ [o] ∧ o.file = n.action.fileName ∧
      (o = tableMissing n.action.fileName ↔ n.content.block.isSome = true ∧
        findTable? tables n.action.target.schema n.action.target.name = none) := by
  cases hnew : rewritten? tables n cs with
  | none =>
    refine ⟨_, (r.conclude_of_not_rewritten refused tables hnew s).2, rfl, ?_⟩
    unfold rewritten? at hnew
    unfold skipCode
    cases hblock : n.content.block with
    | none =>
      refine ⟨fun he => ?_, nofun⟩
      exact absurd (FileOutcome.mk.inj he).2.2 (by decide)
    | some b =>
      rw [hblock] at hnew
      cases htable : findTable? tables n.action.target.schema n.action.target.name with
      | none => exact ⟨fun _ => ⟨rfl, rfl⟩, fun _ => rfl⟩
      | some table =>
        rw [htable] at hnew
        cases hnew
  | some new =>
    obtain ⟨b, table, -, htable, -⟩ := rewritten?_eq_some.1 hnew
    rw [r.conclude_of_rewritten refused tables hnew s, htable]
    rcases r.writeFile_cases refused n.action.fileName n.content.text new s with
      ⟨-, -, hfiles⟩ | ⟨-, -, hfiles⟩ | ⟨-, -, -, hfiles⟩
    · exact ⟨_, hfiles, rfl, nofun, nofun⟩
    · exact ⟨_, hfiles, rfl, nofun, nofun⟩
    · exact ⟨_, hfiles, rfl, nofun, nofun⟩

variable {g : DefinitionGraph Definition} (final : Nat → Columns)

/-- Dealing with more nodes takes no outcome away. -/
theorem mem_files_foldl {ids : List Nat} {s : FileTree × Report} {o : FileOutcome}
    (h : o ∈ s.2.files) : o ∈ (ids.foldl (r.concludeNode refused tables g final) s).2.files := by
  induction ids generalizing s with
  | nil => exact h
  | cons id ids ih =>
    apply ih
    unfold concludeNode
    split
    · exact h
    · next n _ =>
      obtain ⟨o', hfiles, -⟩ := r.exists_outcome_conclude refused tables n (final id) s
      rw [hfiles]
      exact List.mem_append_left _ h

theorem exists_outcome_foldl {ids : List Nat} {id : Nat} (hid : id ∈ ids) {n : GraphNode Definition}
    (hn : g.node? id = some n) (s : FileTree × Report) :
    ∃ o ∈ (ids.foldl (r.concludeNode refused tables g final) s).2.files,
      o.file = n.action.fileName ∧
      (o = tableMissing n.action.fileName ↔ n.content.block.isSome = true ∧
        findTable? tables n.action.target.schema n.action.target.name = none) := by
  induction ids generalizing s with
  | nil => cases hid
  | cons j ids ih =>
    rw [List.foldl_cons]
    rcases List.mem_cons.1 hid with rfl | hid
    · obtain ⟨o, hfiles, ho⟩ := r.exists_outcome_conclude refused tables n (final id) s
      have hmem : o ∈ (r.concludeNode refused tables g final s id).2.files := by
        rw [concludeNode, hn]
        dsimp only
        rw [hfiles]
        exact List.mem_append_right _ List.mem_cons_self
      exact ⟨o, r.mem_files_foldl refused tables final hmem, ho⟩
    · exact ih hid _

/-! ## Datasets and their answers -/

/-- What a run is told when it lists a dataset. -/
def listing (project dataset : String) : Except FetchError (List WarehouseTable) :=
  r.warehouse.listWithin r.configuration.warehouse.timeout project dataset

theorem mem_tablesOf {project dataset : String} {table : WarehouseTable} :
    table ∈ r.tablesOf project dataset ↔
      ∃ listed, r.listing project dataset = .ok listed ∧ table ∈ listed := by
  rw [tablesOf, ← listing]
  cases r.listing project dataset with
  | ok listed => simp [listed?]
  | error e => cases e <;> simp [listed?]

end Reconciliation

/-- The datasets are those of the given nodes and of the nodes that these depend on. -/
theorem DefinitionGraph.mem_datasets_iff {α : Type} {g : DefinitionGraph α} {ids : List Nat}
    {dataset : String} : dataset ∈ g.datasets ids ↔ ∃ id ∈ ids, ∃ n, g.node? id = some n ∧
      (n.action.target.schema = dataset ∨ ∃ d ∈ n.dependencies, ∃ m, g.node? d = some m ∧
        m.action.target.schema = dataset) := by
  have hdataset (id : Nat) : g.dataset? id = some dataset ↔
      ∃ n, g.node? id = some n ∧ n.action.target.schema = dataset := by
    rw [dataset?, Option.map_eq_some_iff]
  have hdependency (id d : Nat) : d ∈ g.dependencies id ↔
      ∃ n, g.node? id = some n ∧ d ∈ n.dependencies := by
    rw [dependencies]
    cases g.node? id with
    | none => simp
    | some n => simp
  rw [datasets, List.mem_eraseDups, List.mem_filterMap]
  constructor
  · rintro ⟨id, hid, hd⟩
    obtain ⟨m, hm, hschema⟩ := (hdataset id).1 hd
    rcases List.mem_append.1 hid with hid | hid
    · exact ⟨id, hid, m, hm, .inl hschema⟩
    · obtain ⟨j, hj, hdep⟩ := List.mem_flatMap.1 hid
      obtain ⟨n, hn, hdep⟩ := (hdependency j id).1 hdep
      exact ⟨j, hj, n, hn, .inr ⟨id, hdep, m, hm, hschema⟩⟩
  · rintro ⟨id, hid, n, hn, hschema | ⟨d, hd, m, hm, hschema⟩⟩
    · exact ⟨id, List.mem_append_left _ hid, (hdataset id).2 ⟨n, hn, hschema⟩⟩
    · exact ⟨d, List.mem_append_right _ (List.mem_flatMap.2 ⟨id, hid, (hdependency id d).2
        ⟨n, hn, hd⟩⟩), (hdataset d).2 ⟨m, hm, hschema⟩⟩

/-! ## Runs -/

namespace Reconciliation

variable {r : Reconciliation} {meanwhile : FileTree → FileTree} {refused : Refusals}
  {timestamp path : String} {t : FileTree} {p : Plan}

/-- A run with a plan asks for the datasets of the plan, whatever the answers are. -/
theorem listings_of_plan (hplan : r.plan t path = .ok p) :
    (r.runAmid meanwhile timestamp t path refused).listings = p.datasets := by
  have hasked : (r.ask p.project p.datasets).map Prod.fst = p.datasets := map_fst_ask ..
  unfold runAmid
  rw [hplan]
  dsimp only
  split
  · exact hasked
  · exact hasked

/-- A run with a plan comes to nothing exactly when its listings do. -/
theorem result_eq_error_iff (hplan : r.plan t path = .ok p) {e : RunError} :
    (r.runAmid meanwhile timestamp t path refused).result = .error e ↔
      collectListings (p.report timestamp) (r.ask p.project p.datasets) = .error e := by
  unfold runAmid
  rw [hplan]
  dsimp only
  split
  · next e' hlisted =>
    rw [hlisted, Except.error.injEq, Except.error.injEq]
  · next tables report hlisted =>
    rw [hlisted]
    exact ⟨nofun, nofun⟩

/-- A listing that fails and ends the run is the first one in the order of the datasets. -/
theorem collectListings_ask_eq_error_iff {report : Report} {project : String}
    {datasets : List String} {e : RunError} :
    collectListings report (r.ask project datasets) = .error e ↔ ∃ before dataset cause after,
      datasets = before ++ dataset :: after ∧ r.listing project dataset = .error cause ∧
        cause.EndsRun ∧
        (∀ d ∈ before, ∀ c, r.listing project d = .error c → ∃ name, c = .datasetNotFound name) ∧
        e = .listing dataset cause := by
  have hfine (before : List String) :
      (∀ a ∈ before.map fun d => (d, r.listing project d), (listed? a.2).isSome = true) ↔
        ∀ d ∈ before, ∀ c, r.listing project d = .error c → ∃ name, c = .datasetNotFound name := by
    rw [List.forall_mem_map]
    exact forall₂_congr fun d _ => isSome_listed?_iff
  rw [collectListings_eq_error_iff, ask_eq]
  constructor
  · rintro ⟨before, dataset, cause, after, hanswers, hends, hbefore, rfl⟩
    obtain ⟨ds, ds', rfl, rfl, hrest⟩ := List.map_eq_append_iff.1 hanswers
    obtain ⟨d, ds', rfl, hd, -⟩ := List.map_eq_cons_iff.1 hrest
    obtain ⟨rfl, hcause⟩ := Prod.mk.inj hd
    exact ⟨ds, d, cause, ds', rfl, hcause, hends, (hfine ds).1 hbefore, rfl⟩
  · rintro ⟨before, dataset, cause, after, rfl, hcause, hends, hbefore, rfl⟩
    refine ⟨before.map fun d => (d, r.listing project d), dataset, cause,
      after.map fun d => (d, r.listing project d), ?_, hends, (hfine before).2 hbefore, rfl⟩
    rw [List.map_append, List.map_cons, ← hcause]
    rfl

/-- The datasets of a plan are those of its requested nodes and of the nodes that these depend on. -/
theorem mem_datasets_iff (hmade : p.Made r t path) (dataset : String) :
    dataset ∈ p.datasets ↔ ∃ id n, p.build.graph.node? id = some n ∧ n.requested = true ∧
      (n.action.target.schema = dataset ∨ ∃ d ∈ n.dependencies, ∃ m,
        p.build.graph.node? d = some m ∧ m.action.target.schema = dataset) := by
  rw [Plan.datasets, DefinitionGraph.mem_datasets_iff]
  constructor
  · rintro ⟨id, hid, n, hn, hdataset⟩
    obtain ⟨n', hn', hrequested⟩ := hmade.exists_node hid
    cases hn.symm.trans hn'
    exact ⟨id, n, hn, hrequested, hdataset⟩
  · rintro ⟨id, n, hn, hrequested, hdataset⟩
    exact ⟨id, hmade.mem_order hn hrequested, n, hn, hdataset⟩

/-- A run with a plan comes to nothing exactly when one of its listings fails and ends it. -/
theorem exists_error_iff (hplan : r.plan t path = .ok p) :
    (∃ e, (r.runAmid meanwhile timestamp t path refused).result = .error e) ↔
      ∃ dataset ∈ p.datasets, ∃ cause,
        r.listing p.project dataset = .error cause ∧ cause.EndsRun := by
  constructor
  · rintro ⟨e, he⟩
    obtain ⟨before, dataset, cause, after, hdatasets, hcause, hends, -, -⟩ :=
      collectListings_ask_eq_error_iff.1 ((result_eq_error_iff hplan).1 he)
    refine ⟨dataset, ?_, cause, hcause, hends⟩
    rw [hdatasets]
    exact List.mem_append_right _ List.mem_cons_self
  · rintro ⟨dataset, hdataset, cause, hcause, hends⟩
    cases hresult : (r.runAmid meanwhile timestamp t path refused).result with
    | error e => exact ⟨e, rfl⟩
    | ok m =>
      obtain ⟨p', tables, report, hplan', hlisted, -, -⟩ := runAmid_eq_ok hresult
      cases hplan.symm.trans hplan'
      obtain ⟨hall, -⟩ := collectListings_eq_ok_iff.1 ⟨report, hlisted⟩
      rw [ask_eq, List.forall_mem_map] at hall
      obtain ⟨name, hname⟩ := isSome_listed?_iff.1 (hall dataset hdataset) cause hcause
      exact absurd hname (hends name)

section Success

variable {m : Merging} (hplan : r.plan t path = .ok p)
  (h : (r.runAmid meanwhile timestamp t path refused).result = .ok m)

include hplan h in
/-- The remarks of a report on datasets are those on the answers. -/
theorem missingDatasets_of_run :
    m.report.missingDatasets =
      (p.datasets.filterMap fun d => missing? (r.listing p.project d)).map missingDataset := by
  obtain ⟨p', tables, report, hplan', hlisted, -, hm⟩ := runAmid_eq_ok h
  cases hplan.symm.trans hplan'
  have hmade := Plan.made_of_plan hplan
  rw [r.mergeAll_eq refused tables hmade.ordering] at hm
  have hstart : (p.report timestamp).missingDatasets = [] :=
    Report.missingDatasets_addIssues _ _
  rw [hm]
  dsimp only
  rw [r.missingDatasets_foldl refused tables, missingDatasets_of_collectListings hlisted, hstart,
    ask_eq, List.filterMap_map]
  rfl

include hplan h in
/-- The file of a requested node with a block is skipped for want of a table exactly when no answer
holds its table. -/
theorem tableMissing_mem_files_iff {id : Nat} {n : GraphNode Definition}
    (hn : p.build.graph.node? id = some n) (hrequested : n.requested = true)
    (hblock : n.content.block.isSome = true) :
    tableMissing n.action.fileName ∈ m.report.files ↔
      ∀ d ∈ p.datasets, ∀ listed, r.listing p.project d = .ok listed → ∀ table ∈ listed,
        ¬(table.dataset = n.action.target.schema ∧ table.name = n.action.target.name) := by
  have hunique := List.inj_on_of_nodup_map (nodup_files_of_runAmid h)
  obtain ⟨p', tables, report, hplan', hlisted, -, hm⟩ := runAmid_eq_ok h
  cases hplan.symm.trans hplan'
  have hmade := Plan.made_of_plan hplan
  rw [r.mergeAll_eq refused tables hmade.ordering] at hm
  obtain ⟨o, ho, hfile, hmissing⟩ := r.exists_outcome_foldl refused tables
    (p.order.foldl (r.completeNode tables) p.build.graph).columns (hmade.mem_order hn hrequested) hn
    (if ((r.ask p.project p.datasets).map Prod.fst).isEmpty then t else meanwhile t, report)
  have hmem : o ∈ m.report.files := by
    rw [hm]
    exact ho
  -- The outcome of the node is the only one of its file.
  have hthis : tableMissing n.action.fileName ∈ m.report.files ↔
      o = tableMissing n.action.fileName := by
    constructor
    · exact fun hin => hunique hmem hin hfile
    · rintro rfl
      exact hmem
  rw [hthis, hmissing, and_iff_right hblock, findTable?_eq_none_iff, tables_eq_flatMap hlisted]
  constructor
  · intro hnone d hd listed hlist table htable
    exact hnone table (List.mem_flatMap.2 ⟨d, hd, r.mem_tablesOf.2 ⟨listed, hlist, htable⟩⟩)
  · intro hnone table htable
    obtain ⟨d, hd, htable⟩ := List.mem_flatMap.1 htable
    obtain ⟨listed, hlist, htable⟩ := r.mem_tablesOf.1 htable
    exact hnone d hd listed hlist table htable

end Success

/-- A run with a plan lists each dataset of its requested nodes and of their dependencies once, and
no other, whatever the answers are. It comes to nothing exactly when a listing fails for another
reason than that there is no such dataset, and its error is the first such failure in the order of
the datasets. Else the report has one warning for each dataset that does not exist, and the file of
a requested node with a block is skipped for want of a table exactly when no answer holds a table
of its dataset and name. -/
theorem listing_covers_datasets (hplan : r.plan t path = .ok p) :
    (r.runAmid meanwhile timestamp t path refused).listings = p.datasets ∧ p.datasets.Nodup ∧
    (∀ dataset, dataset ∈ p.datasets ↔ ∃ id n, p.build.graph.node? id = some n ∧
      n.requested = true ∧ (n.action.target.schema = dataset ∨
        ∃ d ∈ n.dependencies, ∃ m, p.build.graph.node? d = some m ∧
          m.action.target.schema = dataset)) ∧
    ((∃ e, (r.runAmid meanwhile timestamp t path refused).result = .error e) ↔
      ∃ dataset ∈ p.datasets, ∃ cause, r.listing p.project dataset = .error cause ∧
        ∀ name, cause ≠ .datasetNotFound name) ∧
    (∀ e, (r.runAmid meanwhile timestamp t path refused).result = .error e →
      ∃ before dataset cause after,
        p.datasets = before ++ dataset :: after ∧ r.listing p.project dataset = .error cause ∧
        (∀ name, cause ≠ .datasetNotFound name) ∧
        (∀ d ∈ before, ∀ c, r.listing p.project d = .error c → ∃ name, c = .datasetNotFound name) ∧
        e = .listing dataset cause) ∧
    ∀ m, (r.runAmid meanwhile timestamp t path refused).result = .ok m →
      (m.report.diagnostics.filter fun d => d.code = .datasetNotFound) =
        (p.datasets.filterMap fun d => missing? (r.listing p.project d)).map missingDataset ∧
      ∀ id n, p.build.graph.node? id = some n → n.requested = true →
        n.content.block.isSome = true →
        (⟨n.action.fileName, .skipped, some DiagnosticCode.warehouseTableMissing.name⟩ ∈
            m.report.files ↔
          ∀ d ∈ p.datasets, ∀ listed, r.listing p.project d = .ok listed → ∀ table ∈ listed,
            ¬(table.dataset = n.action.target.schema ∧ table.name = n.action.target.name)) := by
  refine ⟨listings_of_plan hplan, nodup_eraseDups _, mem_datasets_iff (Plan.made_of_plan hplan),
    exists_error_iff hplan, fun e he => ?_, fun m hm => ⟨missingDatasets_of_run hplan hm, ?_⟩⟩
  · exact collectListings_ask_eq_error_iff.1 ((result_eq_error_iff hplan).1 he)
  · intro id n hn hrequested hblock
    exact tableMissing_mem_files_iff hplan hm hn hrequested hblock

/-! ## A small project -/

/-- Two tables in datasets of their own, of which the first is made from the second. -/
def scatteredProject : CompiledProject :=
  ⟨[{ sampleAction "a" [] with dependencyTargets := [⟨"lost", "b", none⟩] },
    { sampleAction "b" [] with target := ⟨"lost", "b", none⟩ }], [], [], [], [], [], none⟩

/-- The project of the two tables, in a warehouse that knows the first dataset and, if it answers
for the other one, says so. -/
def scattered (answer : SimulatedWarehouse → SimulatedWarehouse) : Reconciliation :=
  { sample with
    compiler := .fixed "1" scatteredProject
    warehouse := (answer (SimulatedWarehouse.empty "p"
      |>.addTable ⟨"ds", "a", [⟨"id", none, none⟩]⟩)).toWarehouse }

/-- The second dataset cannot be reached. -/
def unreachable : Reconciliation := scattered fun w => w.addError "lost" (.network "down")

/-- A dataset that does not exist is warned about, and its table is missing. A dataset that cannot be
reached ends the run, and all datasets have been asked for even so. -/
theorem listing_covers_datasets_sample :
    (∃ p m, (scattered id).plan sampleTree "definitions" = .ok p ∧ p.datasets = ["lost", "ds"] ∧
      ((scattered id).run "now" sampleTree "definitions").result = .ok m ∧
      m.report.files = [⟨"definitions/b.sqlx", .skipped, some "WAREHOUSE_TABLE_MISSING"⟩,
        ⟨"definitions/a.sqlx", .updated, none⟩] ∧
      (m.report.diagnostics.filter fun d => d.code = .datasetNotFound) =
        [⟨.datasetNotFound, .warn, "Dataset p.lost not found", none⟩]) ∧
    (unreachable.run "now" sampleTree "definitions").listings = ["lost", "ds"] ∧
    ∃ e, (unreachable.run "now" sampleTree "definitions").result = .error e := by
  obtain ⟨p, hp, hknown⟩ : ∃ p, (scattered id).plan sampleTree "definitions" = .ok p ∧
      decide (p.project = "p" ∧ p.datasets = ["lost", "ds"]) = true :=
    exists_ok_of_any (by decide +kernel)
  obtain ⟨m, hm, hfiles⟩ : ∃ m, ((scattered id).run "now" sampleTree "definitions").result = .ok m ∧
      decide (m.report.files = [⟨"definitions/b.sqlx", .skipped, some "WAREHOUSE_TABLE_MISSING"⟩,
        ⟨"definitions/a.sqlx", .updated, none⟩]) = true := exists_ok_of_any (by decide +kernel)
  obtain ⟨p', hp', hdatasets'⟩ : ∃ p, unreachable.plan sampleTree "definitions" = .ok p ∧
      decide (p.datasets = ["lost", "ds"]) = true := exists_ok_of_any (by decide +kernel)
  obtain ⟨hproject, hdatasets⟩ := of_decide_eq_true hknown
  have hdatasets' := of_decide_eq_true hdatasets'
  obtain ⟨-, -, -, -, -, hok⟩ := listing_covers_datasets hp
  obtain ⟨hlistings, -, -, hfails, -, -⟩ := listing_covers_datasets hp'
  refine ⟨⟨p, m, hp, hdatasets, hm, of_decide_eq_true hfiles, ?_⟩, hlistings.trans hdatasets',
    hfails.2 ⟨"lost", by rw [hdatasets']; decide, .network "down", by rfl, nofun⟩⟩
  rw [(hok m hm).1, hproject, hdatasets]
  decide +kernel

end Reconciliation

end ColumnMetadata
