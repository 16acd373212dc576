import ColumnMetadata.Proofs.Project.Actions
import ColumnMetadata.Proofs.Project.Mapping
import ColumnMetadata.Proofs.Reconciliation.Rereading

/-!
# A second run changes nothing

After a run the same files are found and loaded, so the second run has the same graph with other
contents (`Reconciliation.exists_plan`). What it reads agrees with the solution that the first run
has come to, and it solves the merge equations of the second run by itself
(`Reconciliation.Reloaded.solves`). So there is nothing to write
(`Reconciliation.second_run_changes_nothing`).
-/

namespace ColumnMetadata

/-- What becomes of a file when a run is repeated: an updated file is unchanged then. -/
def FileOutcome.settled (o : FileOutcome) : FileOutcome :=
  if o.status = .updated then { o with status := .unchanged } else o

theorem FileOutcome.status_settled (o : FileOutcome) : o.settled.status ≠ .updated := by
  unfold settled
  split
  · exact nofun
  · next h => exact h

theorem FileOutcome.settled_eq_self {o : FileOutcome} (h : o.status ≠ .updated) : o.settled = o :=
  if_neg h

namespace Reconciliation

/-! ## The second graph -/

/-- A graph with what is loaded after a run that has come to columns for all nodes of another one.
-/
structure Reloaded (tables : List WarehouseTable) (g : DefinitionGraph Definition)
    (final : Nat → Columns) (g' : DefinitionGraph Definition) : Prop where
  absent : ∀ id, g.node? id = none → g'.node? id = none
  present : ∀ id n, g.node? id = some n →
    ∃ content, g'.node? id = some { n with content } ∧ Reread tables n (final id) content

/-- Whether there is a new text does not depend on the columns. -/
theorem rewritten?_eq_none {tables : List WarehouseTable} {n : GraphNode Definition} {cs : Columns}
    (h : rewritten? tables n cs = none) (cs' : Columns) : rewritten? tables n cs' = none := by
  cases hnew : rewritten? tables n cs' with
  | none => rfl
  | some new =>
    obtain ⟨b, table, hblock, htable, -⟩ := rewritten?_eq_some.1 hnew
    rw [rewritten?_eq_some.2 ⟨b, table, hblock, htable, rfl⟩] at h
    cases h

/-- Without a new text the columns of a node stay as they are. -/
theorem merged_of_not_rewritten (r : Reconciliation) {tables : List WarehouseTable}
    {n : GraphNode Definition} {cs : Columns}
    (h : n.requested = true → rewritten? tables n cs = none) (final : Nat → Columns) :
    r.merged tables n final = n.content.columns := by
  unfold merged
  split
  · next hrequested hblock htable =>
    have hnone := h hrequested
    rw [rewritten?, hblock, htable] at hnone
    cases hnone
  · rfl

/-- Without a new text the columns of a node are the ones that were read. -/
theorem Solves.eq_content {r : Reconciliation} {tables : List WarehouseTable}
    {g : DefinitionGraph Definition} {final : Nat → Columns} (h : r.Solves tables g final) {id : Nat}
    {n : GraphNode Definition} (hn : g.node? id = some n)
    (hkept : n.requested = true → rewritten? tables n (final id) = none) :
    final id = n.content.columns :=
  (h.eq_merged hn).trans (r.merged_of_not_rewritten hkept final)

section Reloaded

variable {r : Reconciliation} {refused refused' : Refusals} {tables : List WarehouseTable}
  {g g' : DefinitionGraph Definition} {final : Nat → Columns} (h : Reloaded tables g final g')
  (hsolves : r.Solves tables g final)

include h hsolves in
/-- What is read again agrees with what the first run has come to. -/
theorem Reloaded.agree (id : Nat) : (final id).Agree (g'.columns id) := by
  cases hn : g.node? id with
  | none =>
    have hfinal := hsolves id
    rw [hn] at hfinal
    rw [hfinal, DefinitionGraph.columns_of_node?_eq_none (h.absent id hn)]
    exact .nil
  | some n =>
    obtain ⟨content, hn', hread⟩ := h.present id n hn
    rw [DefinitionGraph.columns_of_node? hn']
    cases hread with
    | kept hkept =>
      rw [hsolves.eq_content hn hkept]
      exact .refl _
    | written _ _ _ hagree _ => exact hagree.columns

include h hsolves in
/-- What is read again solves the equations of the second run. -/
theorem Reloaded.solves (hread : ∀ id n, g.node? id = some n → n.content.columns.WellFormed)
    (hfinal : ∀ id, (final id).WellFormed) : r.Solves tables g' g'.columns := by
  intro id
  cases hn : g.node? id with
  | none =>
    rw [h.absent id hn, DefinitionGraph.columns_of_node?_eq_none (h.absent id hn)]
  | some n =>
    obtain ⟨content, hn', hcontent⟩ := h.present id n hn
    rw [hn', DefinitionGraph.columns_of_node? hn']
    dsimp only
    cases hcontent with
    | kept hkept => exact (r.merged_of_not_rewritten hkept _).symm
    | @written b table m hrequested hblock htable hagree _ =>
      have hcolumns := hsolves.eq_merged hn
      rw [merged_eq_complete r tables hrequested hblock htable] at hcolumns
      rw [merged_eq_complete (n := { n with content := n.content.written b (final id) m }) r tables
        hrequested rfl htable, eq_comm]
      refine r.options.complete_eq_self table (hread id n hn) ?_ (hcolumns ▸ hagree.columns) ?_
      · exact List.forall_mem_map.2 fun d _ => hfinal d
      · exact List.forall_mem_map.2 fun d hd =>
          ⟨final d, List.mem_map_of_mem hd, h.agree hsolves d⟩

/-- What was written for a node is what would be written again. -/
theorem rewritten?_written {n : GraphNode Definition} {cs : Columns} (b : Block)
    {table : WarehouseTable} {m : Metadata}
    (htable : findTable? tables n.action.target.schema n.action.target.name = some table)
    (hagree : (n.content.withColumns cs).metadata.Agree m) :
    rewritten? tables { n with content := n.content.written b cs m } m.columns =
      some (n.content.written b cs m).text := by
  refine rewritten?_eq_some.2 ⟨_, table, rfl, htable, ?_⟩
  have hrender : m.render = (n.content.withColumns cs).metadata.render := by
    rw [Metadata.render, Metadata.render, hagree.written]
  exact congrArg (fun cs => String.ofList (b.replace cs)) hrender.symm

/-- A node without a new text is skipped, for the same reason whatever its columns are. -/
theorem Ends.eq_skipped {before tree : FileTree} {id : Nat} {n : GraphNode Definition}
    (hn : g.node? id = some n) (hnone : rewritten? tables n (final id) = none) {o : FileOutcome}
    (ho : r.Ends refused tables g final before tree id o) :
    o = ⟨n.action.fileName, .skipped, some (skipCode n).name⟩ := by
  cases ho with
  | skipped hn' _ =>
    rw [hn] at hn'
    cases hn'
    rfl
  | unchanged hn' hnew _ | updated hn' hnew _ _ _ _ | failed hn' hnew _ _ =>
    rw [hn] at hn'
    cases hn'
    rw [hnone] at hnew
    cases hnew

/-- A node whose text is written already is unchanged. -/
theorem Ends.eq_unchanged {before tree : FileTree} {id : Nat} {n : GraphNode Definition}
    (hn : g.node? id = some n) (hsame : rewritten? tables n (final id) = some n.content.text)
    {o : FileOutcome} (ho : r.Ends refused tables g final before tree id o) :
    o = ⟨n.action.fileName, .unchanged, none⟩ := by
  cases ho with
  | skipped hn' hnone =>
    rw [hn] at hn'
    cases hn'
    rw [hsame] at hnone
    cases hnone
  | unchanged hn' _ _ =>
    rw [hn] at hn'
    cases hn'
    rfl
  | updated hn' hnew hchange _ _ _ | failed hn' hnew hchange _ =>
    rw [hn] at hn'
    cases hn'
    rw [hsame] at hnew
    cases hnew
    exact absurd rfl hchange

include h in
/-- How a node ends in the second run. -/
theorem Reloaded.settled {before tree before' tree' : FileTree} {id : Nat}
    {n : GraphNode Definition} (hn : g.node? id = some n) (hrequested : n.requested = true)
    {o o' : FileOutcome} (ho : r.Ends refused tables g final before tree id o)
    (hwritten : o.status ≠ .failed)
    (ho' : r.Ends refused' tables g' g'.columns before' tree' id o') : o' = o.settled := by
  obtain ⟨content, hn', hcontent⟩ := h.present id n hn
  cases hcontent with
  | kept hkept =>
    have hnone := hkept hrequested
    rw [ho.eq_skipped hn hnone, ho'.eq_skipped hn' (rewritten?_eq_none hnone _)]
    rfl
  | @written b table m _ hblock htable hagree _ =>
    have hsame := rewritten?_written b htable hagree
    have hcolumns : g'.columns id = m.columns := DefinitionGraph.columns_of_node? hn'
    rw [← hcolumns] at hsame
    rw [ho'.eq_unchanged hn' hsame]
    cases ho with
    | skipped hn₁ hnone =>
      rw [hn] at hn₁
      cases hn₁
      rw [rewritten?_eq_some.2 ⟨b, table, hblock, htable, rfl⟩] at hnone
      cases hnone
    | unchanged hn₁ _ _ | updated hn₁ _ _ _ _ _ =>
      rw [hn] at hn₁
      cases hn₁
      rfl
    | failed _ _ _ _ => exact absurd rfl hwritten

/-- The outcomes of the second run. -/
theorem Reloaded.map_settled {p : Plan} {path : String} {before : FileTree}
    (hmade : p.Made r before path) (h : Reloaded tables p.build.graph final g') {ids : List Nat}
    (hids : ∀ id ∈ ids, ∃ n, p.build.graph.node? id = some n ∧ n.requested = true)
    {tree before' tree' : FileTree} {os os' : List FileOutcome}
    (hos : List.Forall₂ (r.Ends (fun _ => none) tables p.build.graph final before tree) ids os)
    (hos' : List.Forall₂ (r.Ends refused' tables g' g'.columns before' tree') ids os') :
    os' = os.map FileOutcome.settled := by
  refine eq_map_of_forall₂ hos hos' fun id hid o o' ho ho' => ?_
  obtain ⟨n, hn, hrequested⟩ := hids id hid
  exact h.settled hn hrequested ho (ho.status_ne_failed hmade) ho'

end Reloaded

/-! ## The second plan -/

/-- The second run finds the same files, the same order of the same nodes, and the same issues. -/
theorem exists_plan {r : Reconciliation} {t u : FileTree} {path : String} {p : Plan}
    {compiled : CompiledProject} (hmade : p.Made r t path)
    (hcompile : r.compiler.compile t = .ok compiled)
    (hcompile' : r.compiler.compile u = .ok compiled) (hshape : t.SameShape u)
    (hload : ∀ a, (r.load u a).map (fun _ => ()) = (r.load t a).map fun _ => ()) :
    ∃ p', r.plan u path = .ok p' ∧ p'.project = p.project ∧ p'.order = p.order ∧
      p'.build.map (fun _ => ()) = p.build.map fun _ => () := by
  obtain ⟨compiled', hcompiled, hbuild⟩ := hmade.build
  rw [hcompile] at hcompiled
  cases hcompiled
  have hmap : (GraphBuild.run compiled p.files fun _ a => r.load u a).map (fun _ => ()) =
      p.build.map fun _ => () := by
    rw [hbuild, GraphBuild.run_map, GraphBuild.run_map]
    exact congrArg _ (funext fun _ => funext hload)
  have horder : (GraphBuild.run compiled p.files fun _ a => r.load u a).graph.order =
      .ok p.order := by
    rw [← DefinitionGraph.order_map fun _ => (), ← GraphBuild.graph_map, hmap,
      GraphBuild.graph_map, DefinitionGraph.order_map, hmade.order]
  refine ⟨⟨p.project, p.files, GraphBuild.run compiled p.files fun _ a => r.load u a, p.order⟩, ?_,
    rfl, rfl, hmap⟩
  refine bind_eq_ok.2 ⟨p.project, hmade.project, bind_eq_ok.2 ⟨p.files, mapError_eq_ok.2 ?_,
    bind_eq_ok.2 ⟨compiled, mapError_eq_ok.2 hcompile',
      bind_eq_ok.2 ⟨p.order, mapError_eq_ok.2 horder, rfl⟩⟩⟩⟩
  rw [r.configuration.definitionFiles_eq hshape, hmade.files]

section SamePlan

variable {p p' : Plan} (hmap : p'.build.map (fun _ => ()) = p.build.map fun _ => ())

include hmap in
theorem datasets_of_map_eq (horder : p'.order = p.order) : p'.datasets = p.datasets := by
  have hgraph : p'.build.graph.map (fun _ => ()) = p.build.graph.map fun _ => () :=
    congrArg GraphBuild.graph hmap
  rw [Plan.datasets, Plan.datasets, horder, ← DefinitionGraph.datasets_map fun _ => (), hgraph,
    DefinitionGraph.datasets_map]

include hmap in
/-- Before anything is written the second report has the outcomes of the first one. -/
theorem files_report_of_map_eq (timestamp later : String) :
    (p'.report later).files = (p.report timestamp).files := by
  have hissues : p'.build.issues = p.build.issues := by
    rw [← GraphBuild.issues_map fun _ => (), hmap, GraphBuild.issues_map]
  rw [Plan.files_report, Plan.files_report, hissues]

end SamePlan

theorem map_settled_report (p : Plan) (timestamp : String) :
    (p.report timestamp).files.map FileOutcome.settled = (p.report timestamp).files := by
  refine (List.map_congr_left fun o ho => ?_).trans (List.map_id _)
  exact FileOutcome.settled_eq_self (Plan.status_of_report ho)

/-- What the nodes of the second plan have in them. -/
theorem reloaded_of_map_eq {r : Reconciliation} {t : FileTree} {path : String} {p p' : Plan}
    {tables : List WarehouseTable} {final : Nat → Columns} {s : FileTree × Report}
    {report : Report} (hmade : p.Made r t path)
    (h : r.Concluded (fun _ => none) tables p.build.graph final (t, report) p.order s)
    (hregular : r.Regular t p final) (hmade' : p'.Made r s.1 path)
    (hgraph : p'.build.graph.map (fun _ => ()) = p.build.graph.map fun _ => ()) :
    Reloaded tables p.build.graph final p'.build.graph := by
  refine ⟨fun id => DefinitionGraph.node?_eq_none_of_map_eq _ hgraph, fun id n hn => ?_⟩
  obtain ⟨content, hn'⟩ := DefinitionGraph.exists_node_of_map_eq _ hgraph hn
  obtain ⟨d, hload, hread⟩ := h.reread hmade hregular hn
  have hcontent : r.load s.1 n.action = .ok content := hmade'.loaded hn'
  rw [hload] at hcontent
  cases hcontent
  exact ⟨_, hn', hread⟩

/-! ## The second run -/

/-- What a compiled project has to ensure for a run in a tree to be repeatable: no two tables or
declarations share a file, files of different names are different files, and all numbers in the
blocks of the files are integers. -/
structure Repeatable (r : Reconciliation) (t : FileTree) (compiled : CompiledProject) : Prop where
  definitions : ∀ a ∈ compiled.tables ++ compiled.declarations,
    ∀ b ∈ compiled.tables ++ compiled.declarations, a.fileName = b.fileName → a = b
  places : ∀ a ∈ compiled.actions, ∀ b ∈ compiled.actions, ∀ place,
    t.locate (r.configuration.resolve a.fileName) = .ok place →
    t.locate (r.configuration.resolve b.fileName) = .ok place → a.fileName = b.fileName
  integers : ∀ a ∈ compiled.actions, ∀ text,
    t.readText (r.configuration.resolve a.fileName) = .ok text → Definition.IntegerNumbers text

section Regular

variable {r : Reconciliation} {t : FileTree} {compiled : CompiledProject}
  (hcompile : r.compiler.compile t = .ok compiled) {path : String} {p : Plan}
  (hmade : p.Made r t path)

include hcompile hmade in
theorem drawn_of_made : p.build.Drawn compiled := by
  obtain ⟨compiled', hcompiled, hbuild⟩ := hmade.build
  rw [hcompile] at hcompiled
  cases hcompiled
  exact hbuild ▸ GraphBuild.drawn_run compiled p.files _

variable {tables : List WarehouseTable} {final : Nat → Columns} (ht : t.top.Proper)
  (hsolves : r.Solves tables p.build.graph final)

include hcompile hmade ht hsolves in
/-- When all that was read is well formed, so is what a run comes to. -/
theorem regular_of_wellFormed
    (hdefinitions : ∀ a ∈ compiled.tables ++ compiled.declarations,
      ∀ b ∈ compiled.tables ++ compiled.declarations, a.fileName = b.fileName → a = b)
    (hplaces : ∀ a ∈ compiled.actions, ∀ b ∈ compiled.actions, ∀ place,
      t.locate (r.configuration.resolve a.fileName) = .ok place →
      t.locate (r.configuration.resolve b.fileName) = .ok place → a.fileName = b.fileName)
    (hmetadata : ∀ id n, p.build.graph.node? id = some n → n.content.metadata.WellFormed) :
    r.Regular t p final := by
  have hdrawn := drawn_of_made hcompile hmade
  refine ⟨fun i j hj place hi hjplace => ?_, hmetadata, hsolves.wellFormed
    (hmade.ordering.wellFounded hmade.leavesOutside) fun id n hn => (hmetadata id n hn).columns⟩
  refine hmade.apart ht t i ?_ j hj place hi hjplace
  -- The file of the node is that of a requested one, so the node was requested itself.
  obtain ⟨n, hn, hnplace⟩ := hi
  obtain ⟨m, hm, hmplace⟩ := hjplace
  obtain ⟨m', hm', hrequested⟩ := hmade.exists_node hj
  rw [hm] at hm'
  cases hm'
  have hnmem := List.mem_of_getElem? hn
  have hmmem := List.mem_of_getElem? hm
  have hfile := hplaces _ (hdrawn.mem_actions hnmem) _ (hdrawn.mem_actions hmmem) place hnplace
    hmplace
  have hnrequested := hdrawn.requested_of_file hdefinitions hmmem hnmem hrequested hfile
  exact hmade.mem_order hn hnrequested

include hcompile hmade ht hsolves in
theorem Repeatable.regular (h : r.Repeatable t compiled) : r.Regular t p final := by
  refine regular_of_wellFormed hcompile hmade ht hsolves h.definitions h.places fun id n hn => ?_
  obtain ⟨htext, hparse⟩ := of_load (hmade.loaded hn)
  exact Definition.wellFormed_of_parse hparse
    (h.integers _ ((drawn_of_made hcompile hmade).mem_actions (List.mem_of_getElem? hn)) _ htext)

end Regular

/-- When a run that has come to an end is repeated, with the same compiled project, it comes to an
end again. What was updated or unchanged is unchanged, all else is reported as before, and the tree
stays as the first run has left it. -/
theorem second_run_changes_nothing {r : Reconciliation} {timestamp path : String}
    {t : FileTree} {compiled : CompiledProject} {m : Merging} (later : String) (ht : t.top.Proper)
    (hcompile : r.compiler.compile t = .ok compiled)
    (hcompile' : r.compiler.compile (r.run timestamp t path).tree = .ok compiled)
    (hrepeatable : r.Repeatable t compiled) (h : (r.run timestamp t path).result = .ok m) :
    ∃ m', (r.run later (r.run timestamp t path).tree path).result = .ok m' ∧
      m'.report.files = m.report.files.map FileOutcome.settled ∧
      (r.run later (r.run timestamp t path).tree path).tree = (r.run timestamp t path).tree := by
  unfold run at h hcompile' ⊢
  obtain ⟨p, tables, report, -, hmade, hlisted, htree, -, hprogress, hconcluded⟩ :=
    of_runAmid_eq_ok ht h
  rw [htree] at hcompile' ⊢
  rw [id_eq, ite_self] at hconcluded
  have hsolves := hprogress.solves hmade.ordering
  have hregular := hrepeatable.regular hcompile hmade ht hsolves
  have hshape := hconcluded.sameShape hmade
  have hload := hconcluded.map_load hmade hregular
  -- The second run begins with the same graph, but for the contents of its nodes.
  have hplan := exists_plan hmade hcompile hcompile' hshape hload
  obtain ⟨p', hplan', hproject, horder, hmap⟩ := hplan
  have hgraph : p'.build.graph.map (fun _ => ()) = p.build.graph.map fun _ => () :=
    congrArg GraphBuild.graph hmap
  obtain ⟨report', hlisted'⟩ := exists_collectListings hlisted (p'.report later)
  rw [← hproject, ← datasets_of_map_eq hmap horder] at hlisted'
  obtain ⟨m', hm'⟩ : ∃ m', (r.runAmid id later m.tree path).result = .ok m' :=
    exists_result hplan' hlisted'
  have hsecond := of_runAmid_eq_ok (ht.of_outline hshape.outline) hm'
  obtain ⟨p'', tables', report'', hplan'', hmade', hlisted'', htree', -, hprogress', hconcluded'⟩ :=
    hsecond
  rw [hplan'] at hplan''
  cases hplan''
  rw [hlisted'] at hlisted''
  cases hlisted''
  rw [id_eq, ite_self, horder] at hconcluded'
  have hreloaded := reloaded_of_map_eq hmade hconcluded hregular hmade' hgraph
  -- What was read solves the equations, so it is what the second run comes to.
  have hcolumns : m'.graph.columns = p'.build.graph.columns :=
    (hprogress'.solves hmade'.ordering).unique
      (hmade'.ordering.wellFounded hmade'.leavesOutside)
      (hreloaded.solves hsolves (fun id n hn => (hregular.metadata id n hn).columns) hregular.final)
  rw [hcolumns] at hconcluded'
  obtain ⟨os, hos, hends⟩ := hconcluded.outcomes
  obtain ⟨os', hos', hends'⟩ := hconcluded'.outcomes
  have hfiles : m'.report.files = m.report.files.map FileOutcome.settled := by
    rw [hos', hos, List.map_append, files_of_collectListings hlisted',
      files_of_collectListings hlisted, map_settled_report,
      files_report_of_map_eq hmap timestamp later,
      hreloaded.map_settled hmade (fun _ => hmade.exists_node) hends hends']
  refine ⟨m', hm', hfiles, htree'.trans (hconcluded'.tree fun o ho => ?_)⟩
  rw [hfiles] at ho
  obtain ⟨o, -, rfl⟩ := List.mem_map.1 ho
  exact o.status_settled

theorem repeatable_sample : sample.Repeatable sampleTree sampleProject where
  definitions := by decide +kernel
  places := by
    have hplaces : ∀ a ∈ sampleProject.actions, ∀ b ∈ sampleProject.actions,
        (sampleTree.locate (sample.configuration.resolve a.fileName)).toOption =
          (sampleTree.locate (sample.configuration.resolve b.fileName)).toOption →
        a.fileName = b.fileName := by decide +kernel
    intro a ha b hb place hap hbp
    exact hplaces a ha b hb (by rw [hap, hbp])
  integers := by
    have hintegers : ∀ a ∈ sampleProject.actions,
        ∀ text ∈ (sampleTree.readText (sample.configuration.resolve a.fileName)).toOption,
        Definition.IntegerNumbers text := by decide +kernel
    intro a ha text htext
    exact hintegers a ha text (by rw [htext]; rfl)

/-- Both files are updated by the first run and unchanged by the second one. -/
theorem second_run_changes_nothing_sample :
    sampleTree.top.Proper ∧ sample.compiler.compile sampleTree = .ok sampleProject ∧
    sample.compiler.compile (sample.run "now" sampleTree "definitions").tree =
      .ok sampleProject ∧
    sample.Repeatable sampleTree sampleProject ∧
    ∃ m, (sample.run "now" sampleTree "definitions").result = .ok m ∧
      m.report.files =
        [⟨"definitions/b.sqlx", .updated, none⟩, ⟨"definitions/a.sqlx", .updated, none⟩] ∧
      ∃ m', (sample.run "later" (sample.run "now" sampleTree "definitions").tree
          "definitions").result = .ok m' ∧
        m'.report.files =
          [⟨"definitions/b.sqlx", .unchanged, none⟩, ⟨"definitions/a.sqlx", .unchanged, none⟩] ∧
        (sample.run "later" (sample.run "now" sampleTree "definitions").tree
          "definitions").tree = (sample.run "now" sampleTree "definitions").tree := by
  obtain ⟨m, hm, hfiles⟩ : ∃ m,
      (sample.run "now" sampleTree "definitions").result = .ok m ∧
      decide (m.report.files = [⟨"definitions/b.sqlx", .updated, none⟩,
        ⟨"definitions/a.sqlx", .updated, none⟩]) = true := exists_ok_of_any (by decide +kernel)
  replace hfiles := of_decide_eq_true hfiles
  obtain ⟨m', hm', hfiles', htree⟩ := second_run_changes_nothing "later"
    proper_sampleTree rfl rfl repeatable_sample hm
  rw [hfiles] at hfiles'
  exact ⟨proper_sampleTree, rfl, rfl, repeatable_sample, m, hm, hfiles, m', hm', hfiles', htree⟩

end Reconciliation

end ColumnMetadata
