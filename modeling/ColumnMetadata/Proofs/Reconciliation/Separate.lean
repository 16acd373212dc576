import ColumnMetadata.Proofs.Project.Cycles
import ColumnMetadata.Proofs.Project.Edges
import ColumnMetadata.Proofs.Reconciliation.Completed
import ColumnMetadata.Proofs.Reconciliation.SecondRun

/-!
# One run for all files, or one for each

A run that is asked for many files completes them in memory, each behind those that it depends on. A
run for one file finds the others on disk, where earlier runs have left them. Between such runs
every file that has been dealt with says what the one run for all files has come to
(`Reconciliation.Halfway`). So the next run finds no cycle and no dataset that the run for all files
has not found, and it comes to an end (`Reconciliation.Halfway.exists_run`).
-/

namespace ColumnMetadata.Reconciliation

open Node (look)

variable {r : Reconciliation} {t u : FileTree} {compiled : CompiledProject}

/-! ## Graphs of a project -/

/-- The graph that a run builds for files. -/
def build (r : Reconciliation) (t : FileTree) (compiled : CompiledProject) (files : List String) :
    GraphBuild Definition LoadError :=
  GraphBuild.run compiled files fun _ a => r.load t a

theorem build_of_made {path : String} {p : Plan} (hmade : p.Made r t path)
    (hcompile : r.compiler.compile t = .ok compiled) : p.build = r.build t compiled p.files := by
  obtain ⟨compiled', hcompiled, hbuild⟩ := hmade.build
  rw [hcompile] at hcompiled
  cases hcompiled
  exact hbuild

/-- Loading sees only the name of the file. -/
theorem load_congr {a b : ActionDescriptor} (h : a.fileName = b.fileName) :
    r.load t a = r.load t b := by
  rw [load, load, h]

section Made

variable {path : String} {p : Plan} (hmade : p.Made r t path)
  (hcompile : r.compiler.compile t = .ok compiled)

include hmade hcompile in
/-- A file that was asked for and can be loaded has a requested node. -/
theorem exists_node_of_made {f : String} (hf : f ∈ p.files) {a : ActionDescriptor}
    (ha : compiled.actionOf? f = some a) (hload : (r.load t a).isOk = true) :
    ∃ id n, p.build.graph.node? id = some n ∧ n.requested = true ∧ n.action = a := by
  cases hcontent : r.load t a with
  | error e =>
    rw [hcontent] at hload
    cases hload
  | ok content =>
    obtain ⟨n, hn, hrequested, haction⟩ : (r.build t compiled p.files).Requests a :=
      GraphBuild.requests_run hf ha fun _ => hcontent
    obtain ⟨id, hid⟩ := List.getElem?_of_mem hn
    rw [build_of_made hmade hcompile]
    exact ⟨id, n, hid, hrequested, haction⟩

include hmade hcompile in
theorem eq_of_action?_of_made {i j : Nat} {a : ActionDescriptor} (hi : p.build.action? i = some a)
    (hj : p.build.action? j = some a) : i = j := by
  rw [build_of_made hmade hcompile] at hi hj
  exact GraphBuild.eq_of_action? hi hj

variable (hkeys : ∀ a ∈ compiled.actions, ∀ b ∈ compiled.actions,
  a.target.key = b.target.key → a = b)

include hmade hcompile hkeys in
theorem map_action?_dependencies_of_made {id : Nat} {n : GraphNode Definition}
    (hn : p.build.graph.node? id = some n) (hrequested : n.requested = true) :
    n.dependencies.map p.build.action? = (compiled.reads (r.load t) n.action).map some := by
  rw [build_of_made hmade hcompile] at hn ⊢
  exact GraphBuild.map_action?_dependencies hkeys p.files hn hrequested

end Made

/-- What a compiled project has to ensure for its files to be reconciled in separate runs: they can
be reconciled repeatedly, no two actions make one table, and the warehouse gives tables of the
dataset that it is asked for. -/
structure Separable (r : Reconciliation) (t : FileTree) (compiled : CompiledProject) : Prop
    extends r.Repeatable t compiled where
  keys : ∀ a ∈ compiled.actions, ∀ b ∈ compiled.actions, a.target.key = b.target.key → a = b
  ownTables : r.warehouse.OwnTables

theorem separable_sample : sample.Separable sampleTree sampleProject where
  toRepeatable := repeatable_sample
  keys := by decide +kernel
  ownTables := SimulatedWarehouse.ownTables (by decide +kernel)

/-- What is known of a run for all files: its plan, its tables and the columns that it comes to. -/
structure Batch (r : Reconciliation) (t : FileTree) (compiled : CompiledProject) (path : String)
    (p : Plan) (tables : List WarehouseTable) (final : Nat → Columns) : Prop where
  proper : t.top.Proper
  separable : r.Separable t compiled
  compile : r.compiler.compile t = .ok compiled
  made : p.Made r t path
  listed : ∃ report report',
    collectListings report (r.ask p.project p.datasets) = .ok (tables, report')
  solves : r.Solves tables p.build.graph final

/-- What holds when some of the files have been reconciled in runs of their own: only requested
files among them have changed, and where there is nothing left to be done a file says what the run
for all files has come to. -/
structure Halfway (r : Reconciliation) (t : FileTree) (p : Plan) (final : Nat → Columns)
    (done : List String) (u : FileTree) : Prop where
  shape : t.SameShape u
  changed : ∀ q, look q u.top ≠ look q t.top → ∃ id n, p.build.graph.node? id = some n ∧
    n.requested = true ∧ n.action.fileName ∈ done ∧ n.content.block.isSome = true ∧
    t.locate (r.configuration.resolve n.action.fileName) = .ok q
  loaded : ∀ id n, p.build.graph.node? id = some n →
    (n.requested = true → n.action.fileName ∈ done) →
    ∃ d, r.load u n.action = .ok d ∧ n.content.Completed (final id) d

section Batch

variable {path : String} {p : Plan} {tables : List WarehouseTable} {final : Nat → Columns}
  (hb : r.Batch t compiled path p tables final)

include hb in
theorem Batch.drawn : p.build.Drawn compiled := drawn_of_made hb.compile hb.made

include hb in
theorem Batch.mem_actions {id : Nat} {n : GraphNode Definition}
    (hn : p.build.graph.node? id = some n) : n.action ∈ compiled.actions :=
  hb.drawn.mem_actions (List.mem_of_getElem? hn)

include hb in
theorem Batch.regular : r.Regular t p final :=
  hb.separable.toRepeatable.regular hb.compile hb.made hb.proper hb.solves

include hb in
theorem Batch.map_action?_dependencies {id : Nat} {n : GraphNode Definition}
    (hn : p.build.graph.node? id = some n) (hrequested : n.requested = true) :
    n.dependencies.map p.build.action? = (compiled.reads (r.load t) n.action).map some :=
  map_action?_dependencies_of_made hb.made hb.compile hb.separable.keys hn hrequested

include hb in
/-- Before any separate run only nodes outside the request have nothing left to be done. -/
theorem Halfway.start : Halfway r t p final [] t where
  shape := .refl t
  changed _ h := absurd rfl h
  loaded id n hn hdone := by
    have hout : n.requested = true → rewritten? tables n (final id) = none := fun hr =>
      absurd (hdone hr) List.not_mem_nil
    have hfinal := hb.solves.eq_content hn hout
    exact ⟨n.content, hb.made.loaded hn, hfinal ▸ .refl (hb.regular.metadata id n hn)⟩

/-! ## Loading between separate runs -/

variable {done : List String} (h : Halfway r t p final done u)

include hb h in
/-- What is loaded is as it was at first, or it is a completed definition. -/
theorem Halfway.load_cases {a : ActionDescriptor} (ha : a ∈ compiled.actions) :
    r.load u a = r.load t a ∨ ∃ id n d, p.build.graph.node? id = some n ∧
      n.action.fileName ∈ done ∧ n.action.fileName = a.fileName ∧ r.load t a = .ok n.content ∧
      r.load u a = .ok d ∧ n.content.Completed (final id) d := by
  by_cases hsame : ∀ q, t.locate (r.configuration.resolve a.fileName) = .ok q →
      look q u.top = look q t.top
  · exact .inl (load_eq h.shape hsame)
  · obtain ⟨q, hsame⟩ := Classical.not_forall.1 hsame
    obtain ⟨hq, hchanged⟩ := Classical.not_imp.1 hsame
    obtain ⟨id, n, hn, -, hdone, -, hplace⟩ := h.changed q hchanged
    have hfile := hb.separable.places _ (hb.mem_actions hn) a ha q hplace hq
    obtain ⟨d, hload, hcompleted⟩ := h.loaded id n hn fun _ => hdone
    have hfirst := hb.made.loaded hn
    rw [load_congr hfile] at hload hfirst
    exact .inr ⟨id, n, d, hn, hdone, hfile, hfirst, hload, hcompleted⟩

include hb h in
theorem Halfway.isOk_load {a : ActionDescriptor} (ha : a ∈ compiled.actions) :
    (r.load u a).isOk = (r.load t a).isOk := by
  rcases h.load_cases hb ha with hsame | ⟨id, n, d, -, -, -, hfirst, hload, -⟩
  · rw [hsame]
  · rw [hfirst, hload]
    rfl

include hb h in
theorem Halfway.reads_eq (a : ActionDescriptor) :
    compiled.reads (r.load u) a = compiled.reads (r.load t) a :=
  CompiledProject.reads_congr fun _ hd => h.isOk_load hb hd.mem_actions

include hb h in
theorem Halfway.wellFormed {a : ActionDescriptor} (ha : a ∈ compiled.actions) {d : Definition}
    (hload : r.load u a = .ok d) : d.metadata.WellFormed := by
  rcases h.load_cases hb ha with hsame | ⟨id, n, d', -, -, -, -, hload', hcompleted⟩
  · rw [hsame] at hload
    obtain ⟨htext, hparse⟩ := of_load hload
    exact Definition.wellFormed_of_parse hparse (hb.separable.integers a ha _ htext)
  · rw [hload] at hload'
    cases hload'
    exact hcompleted.wellFormed

include hb h in
/-- A file that has not been dealt with is as it was. -/
theorem Halfway.load_of_not_mem {id : Nat} {n : GraphNode Definition}
    (hn : p.build.graph.node? id = some n) (hdone : n.action.fileName ∉ done) :
    r.load u n.action = .ok n.content := by
  rcases h.load_cases hb (hb.mem_actions hn) with hsame | ⟨_, m, _, -, hm, hfile, -⟩
  · rw [hsame, hb.made.loaded hn]
  · exact absurd (hfile ▸ hm) hdone

/-! ## The plan of a separate run -/

variable {f : String} (hf : f ∈ p.files)

/-- A graph for one file has one requested node at most, that of the file. -/
theorem fileName_of_build {id : Nat} {n : GraphNode Definition}
    (hn : (r.build u compiled [f]).graph.node? id = some n) (hrequested : n.requested = true) :
    n.action.fileName = f := by
  obtain ⟨count, hsound⟩ := GraphBuild.sound_run compiled [f] fun _ a => r.load u a
  exact List.mem_singleton.1
    (List.mem_eraseDups.1 (hsound.mem_files (List.mem_of_getElem? hn) hrequested))

theorem eq_of_build {i j : Nat} {n m : GraphNode Definition}
    (hn : (r.build u compiled [f]).graph.node? i = some n) (hnr : n.requested = true)
    (hm : (r.build u compiled [f]).graph.node? j = some m) (hmr : m.requested = true) : i = j := by
  obtain ⟨count, hsound⟩ := GraphBuild.sound_run compiled [f] fun _ a => r.load u a
  exact hsound.eq_of_file (nodup_eraseDups _) hn hm hnr hmr
    ((fileName_of_build hn hnr).trans (fileName_of_build hm hmr).symm)

include hb h hf in
/-- What a run for one file asks for, the run for all files has asked for. -/
theorem Halfway.exists_node {id' : Nat} {n' : GraphNode Definition}
    (hn' : (r.build u compiled [f]).graph.node? id' = some n') (hrequested' : n'.requested = true) :
    n'.action.fileName = f ∧
      ∃ id n, p.build.graph.node? id = some n ∧ n.requested = true ∧ n.action = n'.action := by
  have hmem := List.mem_of_getElem? hn'
  have hdrawn := GraphBuild.drawn_run compiled [f] fun _ a => r.load u a
  obtain ⟨count, hsound⟩ := GraphBuild.sound_run compiled [f] fun _ a => r.load u a
  have hfile := fileName_of_build hn' hrequested'
  have haction := hdrawn.requested n' hmem hrequested'
  rw [hfile] at haction
  refine ⟨hfile, exists_node_of_made hb.made hb.compile hf haction ?_⟩
  obtain ⟨_, hload⟩ := hsound.content n' hmem
  rw [← h.isOk_load hb (hdrawn.mem_actions hmem), hload]
  rfl

include hb h hf in
/-- A file does not depend on itself. -/
theorem Halfway.acyclic : (r.build u compiled [f]).graph.Acyclic := by
  intro id' hcycle
  obtain ⟨d', hedge, -⟩ := Relation.TransGen.head'_iff.1 hcycle
  obtain ⟨n', m', hn', hnr, hm', hmr, hdepends⟩ := DefinitionGraph.dependsOn_iff_exists.1 hedge
  obtain ⟨-, id, n, hn, hrequested, haction⟩ := h.exists_node hb hf hn' hnr
  obtain rfl := eq_of_build hn' hnr hm' hmr
  -- So the action reads its own table, also in the run for all files.
  have hreads : n'.action ∈ compiled.reads (r.load u) n'.action :=
    (GraphBuild.mem_reads_iff hb.separable.keys [f] hn' hnr).2
      ⟨id', hdepends, congrArg (Option.map GraphNode.action) hn'⟩
  rw [h.reads_eq hb, ← haction] at hreads
  have hdependencies := hb.map_action?_dependencies hn hrequested
  obtain ⟨e, he, hself⟩ := List.mem_map.1 (hdependencies ▸ List.mem_map_of_mem hreads)
  obtain rfl := eq_of_action?_of_made hb.made hb.compile hself
    (congrArg (Option.map GraphNode.action) hn)
  exact DefinitionGraph.exists_order_iff.1 ⟨_, hb.made.order⟩ e
    (.single (DefinitionGraph.dependsOn_iff_exists.2 ⟨n, n, hn, hrequested, hn, hrequested, he⟩))

include hb h hf in
/-- The datasets of a run for one file are among those of the run for all files. -/
theorem Halfway.mem_datasets {p' : Plan} (hbuild : p'.build = r.build u compiled [f])
    (horder : p'.build.graph.Ordering p'.order) {dataset : String} (hd : dataset ∈ p'.datasets) :
    dataset ∈ p.datasets := by
  rw [hbuild] at horder
  obtain ⟨i, hi, hdataset⟩ := List.mem_filterMap.1 (List.mem_eraseDups.1 hd)
  obtain ⟨m', hm', rfl⟩ := Option.map_eq_some_iff.1 hdataset
  rw [hbuild] at hi hm'
  rcases List.mem_append.1 hi with hi | hi
  · obtain ⟨n', hn', hnr⟩ := DefinitionGraph.mem_requested.1 ((horder.mem i).1 hi)
    rw [hm'] at hn'
    cases hn'
    obtain ⟨-, id, n, hn, hrequested, haction⟩ := h.exists_node hb hf hm' hnr
    rw [← haction]
    exact Reconciliation.mem_datasets (hb.made.mem_order hn hrequested) hn
  · obtain ⟨j, hj, hi⟩ := List.mem_flatMap.1 hi
    obtain ⟨n', hn', hnr⟩ := DefinitionGraph.mem_requested.1 ((horder.mem j).1 hj)
    rw [DefinitionGraph.dependencies_of_node? hn'] at hi
    obtain ⟨-, id, n, hn, hrequested, haction⟩ := h.exists_node hb hf hn' hnr
    have hreads : m'.action ∈ compiled.reads (r.load u) n'.action :=
      (GraphBuild.mem_reads_iff hb.separable.keys [f] hn' hnr).2
        ⟨i, hi, congrArg (Option.map GraphNode.action) hm'⟩
    rw [h.reads_eq hb, ← haction] at hreads
    have hdependencies := hb.map_action?_dependencies hn hrequested
    obtain ⟨e, he, haction'⟩ := List.mem_map.1 (hdependencies ▸ List.mem_map_of_mem hreads)
    obtain ⟨m, hm, hsame⟩ := Option.map_eq_some_iff.1 haction'
    have he : e ∈ p.build.graph.dependencies id := DefinitionGraph.dependencies_of_node? hn ▸ he
    have horder := hb.made.mem_order hn hrequested
    refine List.mem_eraseDups.2 (List.mem_filterMap.2
      ⟨e, List.mem_append_right _ (List.mem_flatMap.2 ⟨id, horder, he⟩), ?_⟩)
    rw [← hsame]
    exact congrArg (Option.map fun n => n.action.target.schema) hm

/-- What is known of a run for one file that has come to an end. -/
structure Single (r : Reconciliation) (u : FileTree) (p : Plan) (f : String) (p' : Plan)
    (tables : List WarehouseTable) (final : Nat → Columns) (s : FileTree × Report) : Prop where
  made : ∃ path, p'.Made r u path
  project : p'.project = p.project
  files : p'.files = [f]
  listed : ∃ report report',
    collectListings report (r.ask p'.project p'.datasets) = .ok (tables, report')
  solves : r.Solves tables p'.build.graph final
  concluded : ∃ report,
    r.Concluded (fun _ => none) tables p'.build.graph final (u, report) p'.order s

include hb h hf in
/-- A run for one file comes to an end. -/
theorem Halfway.exists_run (hcompile : r.compiler.compile u = .ok compiled) {path' : String}
    (hfiles : r.configuration.definitionFiles t path' = .ok [f]) (timestamp : String) :
    ∃ m', (r.run timestamp u path').result = .ok m' ∧ (r.run timestamp u path').tree = m'.tree ∧
      ∃ p' tables', r.Single u p f p' tables' m'.graph.columns (m'.tree, m'.report) := by
  obtain ⟨order, horder⟩ := DefinitionGraph.exists_order_iff.2 (h.acyclic hb hf)
  let p' : Plan := ⟨p.project, [f], r.build u compiled [f], order⟩
  have hplan : r.plan u path' = .ok p' := by
    refine bind_eq_ok.2 ⟨p.project, hb.made.project, bind_eq_ok.2 ⟨[f], mapError_eq_ok.2 ?_,
      bind_eq_ok.2 ⟨compiled, mapError_eq_ok.2 hcompile,
        bind_eq_ok.2 ⟨order, mapError_eq_ok.2 horder, rfl⟩⟩⟩⟩
    rw [r.configuration.definitionFiles_eq h.shape, hfiles]
  obtain ⟨report, report', hlisted⟩ := hb.listed
  have hordering : p'.build.graph.Ordering p'.order := DefinitionGraph.ordering_of_order horder
  have hdatasets : ∀ d ∈ p'.datasets, d ∈ p.datasets := fun d hd =>
    h.mem_datasets hb hf rfl hordering hd
  obtain ⟨tables', other, hlisted'⟩ :=
    exists_collectListings_of_subset hlisted hdatasets (p'.report timestamp)
  obtain ⟨m', hm'⟩ : ∃ m', (r.runAmid id timestamp u path').result = .ok m' :=
    exists_result hplan hlisted'
  obtain ⟨_, _, _, hplan', hmade, hlisted, htree, -, hprogress, hconcluded⟩ :=
    of_runAmid_eq_ok (hb.proper.of_outline h.shape.outline) hm'
  rw [hplan] at hplan'
  cases hplan'
  rw [id_eq, ite_self] at hconcluded
  exact ⟨m', hm', htree, p', _, ⟨_, hmade⟩, rfl, rfl, ⟨_, _, hlisted⟩,
    hprogress.solves hmade.ordering, _, hconcluded⟩

end Batch

end ColumnMetadata.Reconciliation
