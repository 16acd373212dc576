import ColumnMetadata.Proofs.Definition.WriteBack
import ColumnMetadata.Proofs.Project.Discovery
import ColumnMetadata.Proofs.Reconciliation.Disk
import ColumnMetadata.Proofs.Reconciliation.Listing

/-!
# What is known when a run begins to write

A plan gives an order of the requested nodes (`Plan.Made.ordering`), each of them loaded from a file
of its own (`Plan.Made.loaded`, `Plan.Made.apart`). A run that comes to an end has merged the nodes
of its plan in this order (`Reconciliation.runAmid_eq_ok`), and up to then it reported no file as
updated.
-/

namespace ColumnMetadata

/-! ## Reports before anything is written -/

/-- The outcome that an issue means for a file. -/
def GraphIssue.outcome? : GraphIssue LoadError → Option FileOutcome
  | .descriptorMissing file => some ⟨file, .skipped, some DiagnosticCode.descriptorMissing.name⟩
  | .dependencyUnresolved _ _ => none
  | .loadFailed file true e => some ⟨file, .failed, some e.code.name⟩
  | .loadFailed _ false _ => none

theorem GraphIssue.status_of_outcome? {i : GraphIssue LoadError} {o : FileOutcome}
    (h : i.outcome? = some o) : o.status ≠ .updated := by
  match i with
  | .descriptorMissing _ | .loadFailed _ true _ =>
    cases h
    exact nofun

theorem Report.files_addIssues (r : Report) (is : List (GraphIssue LoadError)) :
    (is.foldl addIssue r).files = r.files ++ is.filterMap GraphIssue.outcome? := by
  induction is generalizing r with
  | nil => exact (List.append_nil r.files).symm
  | cons i is ih =>
    rw [List.foldl_cons, ih]
    match i with
    | .descriptorMissing _ | .loadFailed _ true _ => exact List.append_assoc ..
    | .dependencyUnresolved _ _ | .loadFailed _ false _ => rfl

/-- Listing adds diagnostics only. -/
theorem files_of_collectListings {report report' : Report}
    {answers : List (String × Except FetchError (List WarehouseTable))}
    {tables : List WarehouseTable} (h : collectListings report answers = .ok (tables, report')) :
    report'.files = report.files := by
  induction answers generalizing report tables with
  | nil =>
    cases h
    rfl
  | cons a answers ih =>
    obtain ⟨dataset, _ | listed⟩ := a
    · next e =>
      cases e with
      | datasetNotFound name =>
        have hrest : collectListings (report.addDiagnostic _) answers = .ok (tables, report') := h
        exact (ih hrest).trans rfl
      | _ => cases h
    · obtain ⟨⟨tables', report''⟩, hrest, h⟩ := bind_eq_ok.1 h
      cases h
      exact ih hrest

namespace Plan

theorem files_report (p : Plan) (timestamp : String) :
    (p.report timestamp).files = p.build.issues.filterMap GraphIssue.outcome? :=
  Report.files_addIssues _ _

/-- Nothing is reported as updated before anything is written. -/
theorem status_of_report {p : Plan} {timestamp : String} {o : FileOutcome}
    (h : o ∈ (p.report timestamp).files) : o.status ≠ .updated := by
  rw [files_report] at h
  obtain ⟨i, -, ho⟩ := List.mem_filterMap.1 h
  exact GraphIssue.status_of_outcome? ho

/-- What a plan is made from. -/
structure Made (r : Reconciliation) (t : FileTree) (path : String) (p : Plan) : Prop where
  project : warehouseProject r.configuration r.settings = .ok p.project
  files : r.configuration.definitionFiles t path = .ok p.files
  build : ∃ compiled, r.compiler.compile t = .ok compiled ∧
    p.build = GraphBuild.run compiled p.files fun _ a => r.load t a
  order : p.build.graph.order = .ok p.order

theorem made_of_plan {r : Reconciliation} {t : FileTree} {path : String} {p : Plan}
    (h : r.plan t path = .ok p) : p.Made r t path := by
  obtain ⟨project, hproject, h⟩ := bind_eq_ok.1 h
  obtain ⟨files, hfiles, h⟩ := bind_eq_ok.1 h
  obtain ⟨compiled, hcompiled, h⟩ := bind_eq_ok.1 h
  obtain ⟨order, horder, h⟩ := bind_eq_ok.1 h
  cases h
  exact ⟨hproject, mapError_eq_ok.1 hfiles, ⟨compiled, mapError_eq_ok.1 hcompiled, rfl⟩,
    mapError_eq_ok.1 horder⟩

namespace Made

variable {r : Reconciliation} {t : FileTree} {path : String} {p : Plan} (h : p.Made r t path)

include h in
theorem ordering : p.build.graph.Ordering p.order :=
  DefinitionGraph.ordering_of_order h.order

include h in
theorem sound :
    ∃ count, p.build.Sound (fun _ a => r.load t a) p.files.eraseDups count := by
  obtain ⟨compiled, -, hbuild⟩ := h.build
  rw [hbuild]
  exact GraphBuild.sound_run compiled p.files _

include h in
theorem leavesOutside : p.build.graph.LeavesOutside := by
  obtain ⟨count, hsound⟩ := h.sound
  exact hsound.leavesOutside

include h in
/-- The content of each node was loaded. -/
theorem loaded {id : Nat} {n : GraphNode Definition} (hn : p.build.graph.node? id = some n) :
    r.load t n.action = .ok n.content := by
  obtain ⟨count, hsound⟩ := h.sound
  obtain ⟨_, hload⟩ := hsound.content n (List.mem_of_getElem? hn)
  exact hload

include h in
theorem exists_node {id : Nat} (hid : id ∈ p.order) :
    ∃ n, p.build.graph.node? id = some n ∧ n.requested = true :=
  DefinitionGraph.mem_requested.1 ((h.ordering.mem id).1 hid)

include h in
theorem mem_order {id : Nat} {n : GraphNode Definition} (hn : p.build.graph.node? id = some n)
    (hrequested : n.requested = true) : id ∈ p.order :=
  (h.ordering.mem id).2 (DefinitionGraph.mem_requested.2 ⟨n, hn, hrequested⟩)

include h in
/-- The file of a requested node was discovered. -/
theorem mem_files {id : Nat} {n : GraphNode Definition}
    (hn : p.build.graph.node? id = some n) (hrequested : n.requested = true) :
    n.action.fileName ∈ p.files := by
  obtain ⟨count, hsound⟩ := h.sound
  exact List.mem_eraseDups.1 (hsound.mem_files (List.mem_of_getElem? hn) hrequested)

include h in
theorem eq_of_fileName {i j : Nat} {m n : GraphNode Definition}
    (hm : p.build.graph.node? i = some m) (hmr : m.requested = true)
    (hn : p.build.graph.node? j = some n) (hnr : n.requested = true)
    (hfile : m.action.fileName = n.action.fileName) : i = j := by
  obtain ⟨count, hsound⟩ := h.sound
  exact hsound.eq_of_file (nodup_eraseDups _) hm hn hmr hnr hfile

include h in
/-- Different requested nodes have different files, which stand in different places. -/
theorem apart (ht : t.top.Proper) : r.Apart p.build.graph p.order := by
  rintro tree i hi j hj place ⟨m, hm, hmplace⟩ ⟨n, hn, hnplace⟩
  obtain ⟨m', hm', hmr⟩ := h.exists_node hi
  obtain ⟨n', hn', hnr⟩ := h.exists_node hj
  rw [hm] at hm'
  cases hm'
  rw [hn] at hn'
  cases hn'
  exact h.eq_of_fileName hm hmr hn hnr
    (Configuration.eq_of_locate ht h.files (h.mem_files hm hmr) (h.mem_files hn hnr) hmplace hnplace)

end Made

end Plan

namespace Reconciliation

/-- What was loaded from a file is what its text says. -/
theorem of_load {r : Reconciliation} {t : FileTree} {a : ActionDescriptor} {d : Definition}
    (h : r.load t a = .ok d) :
    t.readText (r.configuration.resolve a.fileName) = .ok d.text ∧
      Definition.parse d.text = .ok d := by
  obtain ⟨text, htext, h⟩ := bind_eq_ok.1 h
  obtain ⟨d', hd', h⟩ := bind_eq_ok.1 h
  rw [mapError_eq_ok] at htext hd'
  have hd : d' = d := by
    unfold MissingBlockPolicy.admit at h
    split at h
    · cases h
    · exact Except.ok.inj h
  subst hd
  have htext' := Definition.text_of_parse hd'
  subst htext'
  exact ⟨htext, hd'⟩

section Run

variable {r : Reconciliation} {meanwhile : FileTree → FileTree} {refused : Refusals}
  {timestamp path : String} {t : FileTree}

/-- What a run that comes to an end has done. -/
theorem runAmid_eq_ok {m : Merging}
    (h : (r.runAmid meanwhile timestamp t path refused).result = .ok m) :
    ∃ p tables report, r.plan t path = .ok p ∧
      collectListings (p.report timestamp) (r.ask p.project p.datasets) = .ok (tables, report) ∧
      r.runAmid meanwhile timestamp t path refused =
        ⟨m.tree, (r.ask p.project p.datasets).map Prod.fst, .ok m⟩ ∧
      m = r.mergeAll refused tables ⟨if ((r.ask p.project p.datasets).map Prod.fst).isEmpty then t
        else meanwhile t, p.build.graph, report⟩ p.order := by
  unfold runAmid at h ⊢
  cases hplan : r.plan t path with
  | error e =>
    rw [hplan] at h
    cases h
  | ok p =>
    rw [hplan] at h
    dsimp only at h ⊢
    cases hlisted : collectListings (p.report timestamp) (r.ask p.project p.datasets) with
    | error e =>
      rw [hlisted] at h
      cases h
    | ok listed =>
      obtain ⟨tables, report⟩ := listed
      rw [hlisted] at h
      cases h
      exact ⟨p, tables, report, rfl, hlisted, rfl, rfl⟩

/-- A run with a plan comes to an end if all datasets are listed. -/
theorem exists_result {p : Plan} {tables : List WarehouseTable} {report : Report}
    (hplan : r.plan t path = .ok p)
    (hlisted : collectListings (p.report timestamp) (r.ask p.project p.datasets) =
      .ok (tables, report)) : ∃ m, (r.runAmid meanwhile timestamp t path refused).result = .ok m := by
  unfold runAmid
  rw [hplan]
  dsimp only
  rw [hlisted]
  exact ⟨_, rfl⟩

/-- A run that comes to nothing has left the tree alone. -/
theorem runAmid_eq_error {e : RunError}
    (h : (r.runAmid meanwhile timestamp t path refused).result = .error e) :
    ∃ listings, r.runAmid meanwhile timestamp t path refused =
      ⟨if listings.isEmpty then t else meanwhile t, listings, .error e⟩ := by
  unfold runAmid at h ⊢
  cases hplan : r.plan t path with
  | error e' =>
    rw [hplan] at h
    cases h
    exact ⟨[], rfl⟩
  | ok p =>
    rw [hplan] at h
    dsimp only at h ⊢
    cases hlisted : collectListings (p.report timestamp) (r.ask p.project p.datasets) with
    | error e' =>
      rw [hlisted] at h
      cases h
      exact ⟨_, rfl⟩
    | ok listed =>
      rw [hlisted] at h
      cases h

/-- A run with a requested node asks for its dataset. -/
theorem mem_datasets {p : Plan} {id : Nat} {n : GraphNode Definition} (hid : id ∈ p.order)
    (hn : p.build.graph.node? id = some n) : n.action.target.schema ∈ p.datasets := by
  refine List.mem_eraseDups.2 (List.mem_filterMap.2 ⟨id, List.mem_append_left _ hid, ?_⟩)
  rw [DefinitionGraph.dataset?, hn]
  rfl

end Run

/-- A run that has come to an end has completed the nodes of its plan and dealt with each of them.
-/
theorem of_runAmid_eq_ok {r : Reconciliation} {meanwhile : FileTree → FileTree}
    {refused : Refusals} {timestamp path : String} {t : FileTree} {m : Merging} (ht : t.top.Proper)
    (h : (r.runAmid meanwhile timestamp t path refused).result = .ok m) :
    ∃ (p : Plan) (tables : List WarehouseTable) (report : Report), r.plan t path = .ok p ∧
      p.Made r t path ∧
      collectListings (p.report timestamp) (r.ask p.project p.datasets) = .ok (tables, report) ∧
      (r.runAmid meanwhile timestamp t path refused).tree = m.tree ∧
      (r.runAmid meanwhile timestamp t path refused).listings = p.datasets ∧
      r.Progress tables p.build.graph p.order m.graph ∧
      r.Concluded refused tables p.build.graph m.graph.columns
        (if p.datasets.isEmpty then t else meanwhile t, report) p.order (m.tree, m.report) := by
  obtain ⟨p, tables, report, hplan, hlisted, hrun, hm⟩ := runAmid_eq_ok h
  have hmade := Plan.made_of_plan hplan
  rw [map_fst_ask] at hrun hm
  rw [r.mergeAll_eq refused tables hmade.ordering] at hm
  have hprogress := (Progress.start r tables p.build.graph).finish hmade.ordering
    (List.nil_append p.order).symm
  refine ⟨p, tables, report, hplan, hmade, hlisted, by rw [hrun], by rw [hrun], ?_, ?_⟩
  · rw [hm]
    exact hprogress
  · rw [hm]
    exact concluded_foldl hmade.ordering.nodup
      (fun id hid => (hmade.exists_node hid).imp fun _ hn => hn.1) (hmade.apart ht) _

end Reconciliation

end ColumnMetadata
