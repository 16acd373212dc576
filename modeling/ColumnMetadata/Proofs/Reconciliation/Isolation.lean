import ColumnMetadata.Proofs.Reconciliation.Accounting
import ColumnMetadata.Proofs.Reconciliation.Separate

/-!
# What is wrong with one file stays with it

Two runs are compared, in trees that differ in the content of one file. The file may be read in one
of them and not in the other, so the graphs differ in nodes, numbers and order. But an action from
which no chain of targets leads to the file is loaded as before and reads the same actions, so its
node has the same equation, in which only such nodes occur, and the same solution
(`Reconciliation.Finished.final_eq`). So its file ends in the same way
(`Reconciliation.other_files_end_alike`).
-/

namespace ColumnMetadata

open Node (look)

/-- Two trees that differ in the content of the file at one place, if at all. -/
structure FileTree.DifferAt (q : List String) (t u : FileTree) : Prop extends t.SameShape u where
  elsewhere : ∀ place, place ≠ q → look place u.top = look place t.top

/-- In a report with one outcome for each file, an outcome is found under its file. -/
theorem Report.outcome?_eq_some {report : Report}
    (hnodup : (report.files.map FileOutcome.file).Nodup) {o : FileOutcome}
    (ho : o ∈ report.files) : report.outcome? o.file = some o := by
  obtain ⟨before, after, hfiles⟩ := List.append_of_mem ho
  rw [hfiles, List.map_append, List.nodup_append] at hnodup
  refine List.find?_eq_some_iff_append.2
    ⟨beq_self_eq_true _, before, after, hfiles, fun o' ho' => ?_⟩
  have hne := hnodup.2.2 o'.file (List.mem_map_of_mem ho') o.file
    (List.mem_map_of_mem List.mem_cons_self)
  simpa using hne

namespace Reconciliation

variable {r : Reconciliation} {refused refused' : Refusals} {t u : FileTree}
  {compiled : CompiledProject}

/-! ## One run -/

/-- What is known of a run that has come to an end: its plan, its tables and the columns that it has
come to. -/
structure Finished (r : Reconciliation) (refused : Refusals) (t : FileTree)
    (compiled : CompiledProject) (path : String) (p : Plan) (tables : List WarehouseTable)
    (final : Nat → Columns) (s : FileTree × Report) : Prop where
  proper : t.top.Proper
  compile : r.compiler.compile t = .ok compiled
  made : p.Made r t path
  listed : ∃ report report',
    collectListings report (r.ask p.project p.datasets) = .ok (tables, report')
  solves : r.Solves tables p.build.graph final
  concluded : ∃ report, report.files = p.build.issues.filterMap GraphIssue.outcome? ∧
    r.Concluded refused tables p.build.graph final (t, report) p.order s

theorem finished_of_runAmid {timestamp path : String} {m : Merging} (ht : t.top.Proper)
    (hcompile : r.compiler.compile t = .ok compiled)
    (h : (r.runAmid id timestamp t path refused).result = .ok m) :
    (r.runAmid id timestamp t path refused).tree = m.tree ∧ ∃ p tables,
      r.Finished refused t compiled path p tables m.graph.columns (m.tree, m.report) := by
  obtain ⟨p, tables, report, -, hmade, hlisted, htree, -, hprogress, hconcluded⟩ :=
    of_runAmid_eq_ok ht h
  rw [id_eq, ite_self] at hconcluded
  refine ⟨htree, p, tables, ht, hcompile, hmade, ⟨_, _, hlisted⟩,
    hprogress.solves hmade.ordering, report, ?_, hconcluded⟩
  rw [files_of_collectListings hlisted, Plan.files_report]

section One

variable {path : String} {p : Plan} {tables : List WarehouseTable} {final : Nat → Columns}
  {s : FileTree × Report} (h : r.Finished refused t compiled path p tables final s)

include h in
/-- Which nodes were requested is known from their actions. -/
theorem Finished.requested_iff {id : Nat} {n : GraphNode Definition}
    (hn : p.build.graph.node? id = some n) : n.requested = true ↔
      n.action.fileName ∈ p.files ∧ compiled.actionOf? n.action.fileName = some n.action := by
  have hdrawn := drawn_of_made h.compile h.made
  constructor
  · intro hrequested
    exact ⟨h.made.mem_files hn hrequested, hdrawn.requested n (List.mem_of_getElem? hn) hrequested⟩
  · rintro ⟨hfile, haction⟩
    have hload : (r.load t n.action).isOk = true := by
      rw [h.made.loaded hn]
      rfl
    obtain ⟨j, m, hm, hrequested, hsame⟩ := exists_node_of_made h.made h.compile hfile haction hload
    obtain rfl := eq_of_action?_of_made h.made h.compile
      (congrArg (Option.map GraphNode.action) hm)
      ((congrArg (Option.map GraphNode.action) hn).trans (congrArg some hsame.symm))
    rw [hn] at hm
    cases hm
    exact hrequested

include h in
/-- The table of a requested node stands in the listing of its dataset. -/
theorem Finished.findTable?_eq (hown : r.warehouse.OwnTables) {id : Nat} {n : GraphNode Definition}
    (hn : p.build.graph.node? id = some n) (hrequested : n.requested = true) (name : String) :
    findTable? tables n.action.target.schema name =
      findTable? (r.tablesOf p.project n.action.target.schema) n.action.target.schema name := by
  obtain ⟨_, _, hlisted⟩ := h.listed
  exact findTable?_of_collectListings hlisted hown (nodup_eraseDups _)
    (mem_datasets (h.made.mem_order hn hrequested) hn) name

include h in
/-- A file has changed only if there is a new text for it, and it may be replaced. -/
theorem Finished.look_eq {g : String} (hg : g ∈ p.files) {place : List String}
    (hplace : t.locate (r.configuration.resolve g) = .ok place)
    (hkept : refused place = none → ∀ id n new, p.build.graph.node? id = some n →
      n.requested = true → n.action.fileName = g → rewritten? tables n (final id) = some new →
      new = n.content.text) :
    look place s.1.top = look place t.top := by
  obtain ⟨_, -, hconcluded⟩ := h.concluded
  refine Decidable.byContradiction fun hchanged => ?_
  obtain ⟨id, hid, ⟨n, hn, hnplace⟩, o, -, hstatus, hends⟩ := hconcluded.changed place hchanged
  obtain ⟨n', hn', hrequested⟩ := h.made.exists_node hid
  rw [hn] at hn'
  cases hn'
  have hfile := Configuration.eq_of_locate h.proper h.made.files
    (h.made.mem_files hn hrequested) hg hnplace hplace
  cases hends with
  | updated hn' hnew hchange hplace' hfree _ =>
    rw [hn] at hn'
    cases hn'
    cases hnplace.symm.trans hplace'
    exact hchange (hkept hfree id n _ hn hrequested hfile hnew)
  | _ => cases hstatus

include h in
/-- A file without a node of its own has an issue that says why, and it stays as it was. -/
theorem Finished.without_node {g : String} (hg : g ∈ p.files)
    (hnode : ∀ n ∈ p.build.nodes, n.requested = true → n.action.fileName ≠ g) :
    (∃ i ∈ p.build.issues, i.settled? = some g ∧ i.Holds compiled fun _ a => r.load t a) ∧
      ∀ place, t.locate (r.configuration.resolve g) = .ok place →
        look place s.1.top = look place t.top := by
  refine ⟨?_, fun place hplace => h.look_eq hg hplace fun _ id n _ hn hrequested hname _ =>
    absurd hname (hnode n (List.mem_of_getElem? hn) hrequested)⟩
  have hsettled := GraphBuild.settled_run compiled p.files fun _ a => r.load t a
  rw [← build, ← build_of_made h.made h.compile] at hsettled
  have hmem := hsettled.partition.mem_iff.2 (List.mem_eraseDups.2 hg)
  rcases List.mem_append.1 hmem with hmem | hmem
  · obtain ⟨i, hi, his⟩ := List.mem_filterMap.1 hmem
    exact ⟨i, hi, his, hsettled.holds i hi⟩
  · obtain ⟨n, hn, hname⟩ := List.mem_map.1 hmem
    exact absurd hname (hnode n (List.mem_filter.1 hn).1 (List.mem_filter.1 hn).2)

include h in
theorem Finished.mem_files_of_issue {i : GraphIssue LoadError} (hi : i ∈ p.build.issues)
    {o : FileOutcome} (ho : i.outcome? = some o) : o ∈ s.2.files := by
  obtain ⟨report, hreport, hconcluded⟩ := h.concluded
  obtain ⟨os, hos, -⟩ := hconcluded.outcomes
  rw [hos, hreport]
  exact List.mem_append_left _ (List.mem_filterMap.2 ⟨i, hi, ho⟩)

include h in
/-- The action of a requested node is that of its file, and it was loaded. -/
theorem Finished.action_of_node {n : GraphNode Definition} (hn : n ∈ p.build.nodes)
    (hrequested : n.requested = true) :
    compiled.actionOf? n.action.fileName = some n.action ∧ r.load t n.action = .ok n.content := by
  obtain ⟨id, hid⟩ := List.getElem?_of_mem hn
  exact ⟨(drawn_of_made h.compile h.made).requested n hn hrequested, h.made.loaded hid⟩

include h in
/-- A file that defines no action is skipped and stays as it was. -/
theorem Finished.of_no_action {g : String} (hg : g ∈ p.files)
    (hnone : compiled.actionOf? g = none) :
    (⟨g, .skipped, some DiagnosticCode.descriptorMissing.name⟩ : FileOutcome) ∈ s.2.files ∧
      ∀ place, t.locate (r.configuration.resolve g) = .ok place →
        look place s.1.top = look place t.top := by
  obtain ⟨⟨i, hi, his, hholds⟩, hlook⟩ := h.without_node hg fun n hn hrequested hname => by
    have haction := (h.action_of_node hn hrequested).1
    rw [hname, hnone] at haction
    cases haction
  refine ⟨?_, hlook⟩
  match i with
  | .descriptorMissing file =>
    cases his
    exact h.mem_files_of_issue hi rfl
  | .loadFailed file true e =>
    cases his
    obtain ⟨d, _, hd, -⟩ := hholds
    rw [hnone] at hd
    cases hd

include h in
/-- A file that cannot be loaded has failed and stays as it was. -/
theorem Finished.of_load_error {g : String} (hg : g ∈ p.files) {a : ActionDescriptor}
    (ha : compiled.actionOf? g = some a) {e : LoadError} (he : r.load t a = .error e) :
    (⟨g, .failed, some e.code.name⟩ : FileOutcome) ∈ s.2.files ∧
      ∀ place, t.locate (r.configuration.resolve g) = .ok place →
        look place s.1.top = look place t.top := by
  obtain ⟨⟨i, hi, his, hholds⟩, hlook⟩ := h.without_node hg fun n hn hrequested hname => by
    obtain ⟨haction, hload⟩ := h.action_of_node hn hrequested
    rw [hname, ha] at haction
    cases haction
    rw [he] at hload
    cases hload
  refine ⟨?_, hlook⟩
  match i with
  | .descriptorMissing file =>
    cases his
    exact absurd (ha.symm.trans hholds) nofun
  | .loadFailed file true e' =>
    cases his
    obtain ⟨d, _, hd, he'⟩ := hholds
    cases ha.symm.trans hd
    cases he.symm.trans he'
    exact h.mem_files_of_issue hi rfl

/-- How a node with a file of its own ends, when it is known whether the system refuses to replace
the file and what the new text is. -/
def ending (n : GraphNode Definition) (refusal : Option FileError) : Option String → FileOutcome
  | none => ⟨n.action.fileName, .skipped, some (skipCode n).name⟩
  | some new =>
    if new = n.content.text then ⟨n.action.fileName, .unchanged, none⟩
    else if refusal.isSome then
      ⟨n.action.fileName, .failed, some DiagnosticCode.writeFailed.name⟩
    else ⟨n.action.fileName, .updated, none⟩

/-- What the file of the node says in the end. -/
def lastText (n : GraphNode Definition) (refusal : Option FileError) (new? : Option String) :
    String :=
  if refusal.isSome then n.content.text else new?.getD n.content.text

include h in
/-- The file of a requested node says its new text in the end, or what it said before. -/
theorem Finished.of_node {id : Nat} {n : GraphNode Definition}
    (hn : p.build.graph.node? id = some n) (hrequested : n.requested = true) {place : List String}
    (hplace : t.locate (r.configuration.resolve n.action.fileName) = .ok place) :
    ending n (refused place) (rewritten? tables n (final id)) ∈ s.2.files ∧
      look place s.1.top =
        some (some (.text (lastText n (refused place) (rewritten? tables n (final id))))) := by
  obtain ⟨_, -, hconcluded⟩ := h.concluded
  obtain ⟨o, ho, hends⟩ := hconcluded.exists_outcome (h.made.mem_order hn hrequested)
  have htext := look_of_isPlace h.made hn hplace
  -- Without another text, or with a refusal, the file is as it was, since its place is that of no
  -- other node.
  have hkept : (refused place = none → ∀ new, rewritten? tables n (final id) = some new →
      new = n.content.text) → look place s.1.top = some (some (.text n.content.text)) := by
    intro hsame
    rw [h.look_eq (h.made.mem_files hn hrequested) hplace, htext]
    intro hfree j m new hm hmr hfile hnew
    obtain rfl := h.made.eq_of_fileName hm hmr hn hrequested hfile
    rw [hn] at hm
    cases hm
    exact hsame hfree new hnew
  cases hends with
  | skipped hn' hnew =>
    rw [hn] at hn'
    cases hn'
    rw [hnew] at hkept ⊢
    rw [lastText, Option.getD_none, ite_self]
    exact ⟨ho, hkept nofun⟩
  | unchanged hn' hnew hsame =>
    rw [hn] at hn'
    cases hn'
    rw [hnew] at hkept ⊢
    rw [ending, if_pos hsame, lastText, Option.getD_some, hsame, ite_self]
    exact ⟨ho, hkept fun _ new hnew' => (Option.some.inj hnew').symm.trans hsame⟩
  | updated hn' hnew hchange hplace' hfree hlook =>
    rw [hn] at hn'
    cases hn'
    cases hplace.symm.trans hplace'
    rw [hnew, ending, if_neg hchange, lastText, hfree]
    exact ⟨ho, hlook⟩
  | failed hn' hnew hchange hcause =>
    rw [hn] at hn'
    cases hn'
    have hrefused := hcause place _ hplace htext
    rw [hnew] at hkept ⊢
    rw [ending, if_neg hchange, if_pos hrefused, lastText, if_pos hrefused]
    refine ⟨ho, hkept fun hfree => ?_⟩
    rw [hfree] at hrefused
    cases hrefused

end One

/-! ## Two runs -/

theorem ending_congr {n n' : GraphNode Definition} (haction : n'.action = n.action)
    (hcontent : n'.content = n.content) : ending n' = ending n := by
  funext refusal new?
  unfold ending skipCode
  rw [haction, hcontent]

theorem file_ending (n : GraphNode Definition) (refusal : Option FileError)
    (new? : Option String) : (ending n refusal new?).file = n.action.fileName := by
  unfold ending
  split
  · rfl
  · split
    · rfl
    · split
      · rfl
      · rfl

/-- A file that two runs load alike, and whose nodes are rewritten to the same text or both left,
ends with the same outcome and the same content, if it may be replaced in both runs or in neither.
-/
theorem Finished.alike {r' : Reconciliation} {path : String} {p p' : Plan}
    {tables tables' : List WarehouseTable} {final final' : Nat → Columns}
    {s s' : FileTree × Report} (h : r.Finished refused t compiled path p tables final s)
    (h' : r'.Finished refused' u compiled path p' tables' final' s') {g : String}
    (hg : g ∈ p.files) (hg' : g ∈ p'.files)
    (hlocate : u.locate (r'.configuration.resolve g) = t.locate (r.configuration.resolve g))
    (hkept : ∀ place, t.locate (r.configuration.resolve g) = .ok place →
      look place u.top = look place t.top ∧ refused' place = refused place)
    (hload : ∀ a, compiled.actionOf? g = some a → r'.load u a = r.load t a)
    (hnew : ∀ i n i' n', p.build.graph.node? i = some n → p'.build.graph.node? i' = some n' →
      n.requested = true → n'.action = n.action → compiled.actionOf? g = some n.action →
      rewritten? tables' n' (final' i') = rewritten? tables n (final i)) :
    (∃ o, o.file = g ∧ o ∈ s.2.files ∧ o ∈ s'.2.files) ∧
      ∀ place, t.locate (r.configuration.resolve g) = .ok place →
        look place s'.1.top = look place s.1.top := by
  cases ha : compiled.actionOf? g with
  | none =>
    obtain ⟨ho, hlook⟩ := h.of_no_action hg ha
    obtain ⟨ho', hlook'⟩ := h'.of_no_action hg' ha
    refine ⟨⟨_, rfl, ho, ho'⟩, fun place hplace => ?_⟩
    rw [hlook' place (hlocate.trans hplace), (hkept place hplace).1, hlook place hplace]
  | some a =>
    have hload := hload a ha
    have hname := GraphBuild.mem_of_actionOf? ha
    cases hcontent : r.load t a with
    | error e =>
      rw [hcontent] at hload
      obtain ⟨ho, hlook⟩ := h.of_load_error hg ha hcontent
      obtain ⟨ho', hlook'⟩ := h'.of_load_error hg' ha hload
      refine ⟨⟨_, rfl, ho, ho'⟩, fun place hplace => ?_⟩
      rw [hlook' place (hlocate.trans hplace), (hkept place hplace).1, hlook place hplace]
    | ok content =>
      have hok : (r.load t a).isOk = true := by rw [hcontent]; rfl
      obtain ⟨i, n, hn, hr, rfl⟩ := exists_node_of_made h.made h.compile hg ha hok
      obtain ⟨i', n', hn', hr', haction⟩ :=
        exists_node_of_made h'.made h'.compile hg' ha (hload ▸ hok)
      have hsame : n'.content = n.content := by
        have hloaded := h'.made.loaded hn'
        rw [haction, hload, h.made.loaded hn] at hloaded
        exact (Except.ok.inj hloaded).symm
      obtain ⟨place, hplace, -⟩ := FileTree.readText_eq_ok.1 (of_load (h.made.loaded hn)).1
      have hplace' : u.locate (r'.configuration.resolve n'.action.fileName) = .ok place := by
        rw [haction, hname, hlocate, ← hname]
        exact hplace
      obtain ⟨ho, hlook⟩ := h.of_node hn hr hplace
      obtain ⟨ho', hlook'⟩ := h'.of_node hn' hr' hplace'
      rw [hname] at hplace
      rw [hnew i n i' n' hn hn' hr haction ha, (hkept place hplace).2] at ho' hlook'
      rw [ending_congr haction hsame] at ho'
      refine ⟨⟨_, (file_ending ..).trans hname, ho, ho'⟩, fun place' hplace' => ?_⟩
      cases hplace.symm.trans hplace'
      rw [hlook', hlook, lastText, lastText, hsame]

/-- No chain of targets leads from an action to one whose file stands at a place. -/
def Clear (r : Reconciliation) (t : FileTree) (compiled : CompiledProject) (q : List String)
    (a : ActionDescriptor) : Prop :=
  ∀ b, Relation.ReflTransGen compiled.Reads a b →
    t.locate (r.configuration.resolve b.fileName) ≠ .ok q

section Two

variable {q : List String} (hd : t.DifferAt q u) {a : ActionDescriptor}

theorem Clear.of_reads (h : r.Clear t compiled q a) {b : ActionDescriptor}
    (hb : compiled.Reads a b) : r.Clear t compiled q b :=
  fun c hc => h c (hc.head hb)

include hd in
theorem Clear.load_eq (h : r.Clear t compiled q a) : r.load u a = r.load t a :=
  Reconciliation.load_eq hd.toSameShape fun place hplace =>
    hd.elsewhere place fun he => h a .refl (he ▸ hplace)

include hd in
theorem Clear.reads_eq (h : r.Clear t compiled q a) :
    compiled.reads (r.load u) a = compiled.reads (r.load t) a :=
  CompiledProject.reads_congr fun _ hb => by rw [(h.of_reads hb).load_eq hd]

/-- Two nodes have the same equation if they differ in the numbers of their dependencies only. -/
theorem merged_eq_of_eq (r : Reconciliation) {tables tables' : List WarehouseTable}
    {n n' : GraphNode Definition} {final final' : Nat → Columns} (hcontent : n'.content = n.content)
    (hrequested : n'.requested = n.requested)
    (htable : n.requested = true →
      findTable? tables' n'.action.target.schema n'.action.target.name =
        findTable? tables n.action.target.schema n.action.target.name)
    (hdependencies : n.requested = true →
      n'.dependencies.map final' = n.dependencies.map final) :
    r.merged tables' n' final' = r.merged tables n final := by
  unfold merged
  rw [hcontent, hrequested]
  cases hr : n.requested with
  | false => rfl
  | true =>
    rw [htable hr]
    split
    · rw [← complete_eq, ← complete_eq, hdependencies hr]
    · rfl

variable {path : String} {p p' : Plan} {tables tables' : List WarehouseTable}
  {final final' : Nat → Columns} {s s' : FileTree × Report}
  (h : r.Finished refused t compiled path p tables final s)
  (h' : r.Finished refused' u compiled path p' tables' final' s')
  (hkeys : ∀ a ∈ compiled.actions, ∀ b ∈ compiled.actions, a.target.key = b.target.key → a = b)
  (hown : r.warehouse.OwnTables)

include hd h h' in
theorem Finished.files_eq : p'.files = p.files := by
  have hfiles := h'.made.files
  rw [r.configuration.definitionFiles_eq hd.toSameShape, h.made.files] at hfiles
  exact (Except.ok.inj hfiles).symm

include h h' in
theorem Finished.project_eq : p'.project = p.project :=
  Except.ok.inj (h'.made.project.symm.trans h.made.project)

section Twins

variable {i i' : Nat} {n n' : GraphNode Definition} (hn : p.build.graph.node? i = some n)
  (hn' : p'.build.graph.node? i' = some n') (haction : n'.action = n.action)
  (hclear : r.Clear t compiled q n.action)

include hd h h' hn hn' haction hclear in
theorem Finished.content_eq : n'.content = n.content := by
  have hload := h'.made.loaded hn'
  rw [haction, hclear.load_eq hd, h.made.loaded hn] at hload
  exact (Except.ok.inj hload).symm

include hd h h' hn hn' haction in
theorem Finished.requested_eq : n'.requested = n.requested := by
  rw [Bool.eq_iff_iff, h'.requested_iff hn', h.requested_iff hn, haction,
    Finished.files_eq hd h h']

include hd h h' hown hn hn' haction in
theorem Finished.table_eq (hrequested : n.requested = true) :
    findTable? tables' n'.action.target.schema n'.action.target.name =
      findTable? tables n.action.target.schema n.action.target.name := by
  have hrequested' := (Finished.requested_eq hd h h' hn hn' haction).trans hrequested
  rw [h'.findTable?_eq hown hn' hrequested', h.findTable?_eq hown hn hrequested, haction,
    Finished.project_eq h h']

end Twins

include hd h h' hkeys hown in
/-- The nodes of an action from which no chain leads to the place come to the same columns. -/
theorem Finished.final_eq {i i' : Nat} {n n' : GraphNode Definition}
    (hn : p.build.graph.node? i = some n) (hn' : p'.build.graph.node? i' = some n')
    (haction : n'.action = n.action) (hclear : r.Clear t compiled q n.action) :
    final' i' = final i := by
  have hwf := h.made.ordering.wellFounded h.made.leavesOutside
  induction i using hwf.induction generalizing n i' n' with
  | _ i ih =>
    have hcontent := Finished.content_eq hd h h' hn hn' haction hclear
    have hrequested := Finished.requested_eq hd h h' hn hn' haction
    rw [h.solves.eq_merged hn, h'.solves.eq_merged hn']
    refine r.merged_eq_of_eq hcontent hrequested
      (Finished.table_eq hd h h' hown hn hn' haction) fun hr => ?_
    -- Both nodes depend on the nodes of the same actions, which are clear as well.
    have hreads := map_action?_dependencies_of_made h.made h.compile hkeys hn hr
    have hreads' := map_action?_dependencies_of_made h'.made h'.compile hkeys hn'
      (hrequested.trans hr)
    rw [haction, hclear.reads_eq hd] at hreads'
    refine map_eq_map_of_map_eq (hreads'.trans hreads.symm) fun d' hd' d hmem hsame => ?_
    obtain ⟨a, ha, had⟩ := List.mem_map.1 (hreads ▸ List.mem_map_of_mem hmem)
    obtain ⟨m, hm, rfl⟩ := Option.map_eq_some_iff.1 had.symm
    obtain ⟨m', hm', hmm'⟩ := Option.map_eq_some_iff.1 (hsame.trans had.symm)
    exact ih d (DefinitionGraph.dependencies_of_node? hn ▸ hmem) hm hm' hmm'
      (hclear.of_reads (CompiledProject.reads_of_mem ha))

include hd h h' hkeys hown in
/-- They are rewritten to the same text, or both left. -/
theorem Finished.rewritten?_eq {i i' : Nat} {n n' : GraphNode Definition}
    (hn : p.build.graph.node? i = some n) (hn' : p'.build.graph.node? i' = some n')
    (haction : n'.action = n.action) (hclear : r.Clear t compiled q n.action)
    (hrequested : n.requested = true) :
    rewritten? tables' n' (final' i') = rewritten? tables n (final i) := by
  rw [Finished.final_eq hd h h' hkeys hown hn hn' haction hclear, rewritten?, rewritten?,
    Finished.content_eq hd h h' hn hn' haction hclear,
    Finished.table_eq hd h h' hown hn hn' haction hrequested]

include hd h h' hkeys hown in
/-- A file from whose action no chain leads to the place, and that does not stand there itself, ends
with the same outcome and the same content. -/
theorem Finished.file_eq {g : String} (hg : g ∈ p.files)
    (hself : t.locate (r.configuration.resolve g) ≠ .ok q)
    (hrefused : ∀ place, place ≠ q → refused' place = refused place)
    (hclear : ∀ a, compiled.actionOf? g = some a → r.Clear t compiled q a) :
    (∃ o, o.file = g ∧ o ∈ s.2.files ∧ o ∈ s'.2.files) ∧
      ∀ place, t.locate (r.configuration.resolve g) = .ok place →
        look place s'.1.top = look place s.1.top := by
  refine Finished.alike h h' hg (Finished.files_eq hd h h' ▸ hg)
    (hd.locate_eq (r.configuration.resolve g)) (fun place hplace => ?_)
    (fun a ha => (hclear a ha).load_eq hd) fun i n i' n' hn hn' hrequested haction ha => ?_
  · have hne : place ≠ q := fun he => hself (he ▸ hplace)
    exact ⟨hd.elsewhere place hne, hrefused place hne⟩
  · exact Finished.rewritten?_eq hd h h' hkeys hown hn hn' haction (hclear n.action ha) hrequested

end Two

/-- When runs in two trees that differ in the content of one file come to an end, every discovered
file ends with the same outcome and the same content in both, if it is not that file and no chain of
targets leads from its action to an action of that file. The system may refuse to replace files, the
same ones in both runs, except that the one file may be refused in one run only. -/
theorem other_files_end_alike {timestamp timestamp' path : String} {q : List String}
    {m m' : Merging} (ht : t.top.Proper) (hd : t.DifferAt q u)
    (hcompile : r.compiler.compile t = .ok compiled)
    (hcompile' : r.compiler.compile u = .ok compiled)
    (hkeys : ∀ a ∈ compiled.actions, ∀ b ∈ compiled.actions, a.target.key = b.target.key → a = b)
    (hown : r.warehouse.OwnTables)
    (hrefused : ∀ place, place ≠ q → refused' place = refused place)
    (h : (r.runAmid id timestamp t path refused).result = .ok m)
    (h' : (r.runAmid id timestamp' u path refused').result = .ok m') :
    ∃ files, r.configuration.definitionFiles t path = .ok files ∧
      r.configuration.definitionFiles u path = .ok files ∧
      ∀ g ∈ files, t.locate (r.configuration.resolve g) ≠ .ok q →
        (∀ a, compiled.actionOf? g = some a → r.Clear t compiled q a) →
        (∃ o, m.report.outcome? g = some o ∧ m'.report.outcome? g = some o) ∧
          ∀ place, t.locate (r.configuration.resolve g) = .ok place →
            look place (r.runAmid id timestamp' u path refused').tree.top =
              look place (r.runAmid id timestamp t path refused).tree.top := by
  obtain ⟨htree, p, tables, hfinished⟩ := finished_of_runAmid ht hcompile h
  obtain ⟨htree', p', tables', hfinished'⟩ :=
    finished_of_runAmid (ht.of_outline hd.outline) hcompile' h'
  have hunique := nodup_files_of_runAmid h
  have hunique' := nodup_files_of_runAmid h'
  refine ⟨p.files, hfinished.made.files, ?_, fun g hg hself hclear => ?_⟩
  · rw [r.configuration.definitionFiles_eq hd.toSameShape]
    exact hfinished.made.files
  · obtain ⟨⟨o, rfl, ho, ho'⟩, hlook⟩ :=
      Finished.file_eq hd hfinished hfinished' hkeys hown hg hself hrefused hclear
    rw [htree, htree']
    exact ⟨⟨o, Report.outcome?_eq_some hunique ho, Report.outcome?_eq_some hunique' ho'⟩, hlook⟩

/-- The first file says something that cannot be read. -/
def sampleMalformed : FileTree :=
  { sampleTree with
    top := Node.put (.file (.text "config \x7bcolumns")) ["p", "definitions", "a.sqlx"]
      sampleTree.top }

theorem differAt_sampleMalformed :
    sampleTree.DifferAt ["p", "definitions", "a.sqlx"] sampleMalformed where
  workingDirectory := rfl
  outline := Node.outline_put (c := .text "config \x7b\x7d\nselect * from b") (by decide +kernel) _
  elsewhere place hplace := by
    have hput : look place sampleMalformed.top =
        if place = ["p", "definitions", "a.sqlx"] then some (some (.text "config \x7bcolumns"))
        else look place sampleTree.top :=
      Node.look_put (fun _ => Node.look_file _) (by decide) (by decide +kernel)
        (by decide +kernel) place
    rw [hput, if_neg hplace]

/-- The second file is updated, whether the first one, which is made from it, may not be replaced or
cannot be read. -/
theorem other_files_end_alike_sample :
    sampleTree.top.Proper ∧ sampleTree.DifferAt ["p", "definitions", "a.sqlx"] sampleMalformed ∧
    (∀ place, place ≠ ["p", "definitions", "a.sqlx"] →
      none = sampleRefusals "a.sqlx" place) ∧
    ∃ m m',
      (sample.runAmid id "now" sampleTree "definitions" (sampleRefusals "a.sqlx")).result =
        .ok m ∧
      (sample.runAmid id "now" sampleMalformed "definitions").result = .ok m' ∧
      m.report.files = [⟨"definitions/b.sqlx", .updated, none⟩,
        ⟨"definitions/a.sqlx", .failed, some "WRITE_FAILED"⟩] ∧
      m'.report.files = [⟨"definitions/a.sqlx", .failed, some "CONFIG_PARSE_ERROR"⟩,
        ⟨"definitions/b.sqlx", .updated, none⟩] ∧
      look ["p", "definitions", "b.sqlx"]
          (sample.runAmid id "now" sampleMalformed "definitions").tree.top =
        look ["p", "definitions", "b.sqlx"]
          (sample.runAmid id "now" sampleTree "definitions"
            (sampleRefusals "a.sqlx")).tree.top := by
  obtain ⟨m, hm, hfiles⟩ : ∃ m,
      (sample.runAmid id "now" sampleTree "definitions" (sampleRefusals "a.sqlx")).result =
        .ok m ∧
      decide (m.report.files = [⟨"definitions/b.sqlx", .updated, none⟩,
        ⟨"definitions/a.sqlx", .failed, some "WRITE_FAILED"⟩]) = true :=
    exists_ok_of_any (by decide +kernel)
  obtain ⟨m', hm', hfiles'⟩ : ∃ m',
      (sample.runAmid id "now" sampleMalformed "definitions").result = .ok m' ∧
      decide (m'.report.files = [⟨"definitions/a.sqlx", .failed, some "CONFIG_PARSE_ERROR"⟩,
        ⟨"definitions/b.sqlx", .updated, none⟩]) = true := exists_ok_of_any (by decide +kernel)
  have hclear : ∀ a, sampleProject.actionOf? "definitions/b.sqlx" = some a →
      sample.Clear sampleTree sampleProject ["p", "definitions", "a.sqlx"] a := by
    rintro a ⟨⟩ b hchain
    rcases hchain.cases_head with rfl | ⟨c, ⟨target, htarget, -⟩, -⟩
    · decide +kernel
    · cases htarget
  have hrefused : ∀ place, place ≠ ["p", "definitions", "a.sqlx"] →
      none = sampleRefusals "a.sqlx" place := fun place hne => (if_neg hne).symm
  obtain ⟨files, hdiscovered, -, hall⟩ := other_files_end_alike proper_sampleTree
    differAt_sampleMalformed rfl rfl separable_sample.keys separable_sample.ownTables hrefused
    hm hm'
  have hmem : "definitions/b.sqlx" ∈ files := by
    have hfiles : sample.configuration.definitionFiles sampleTree "definitions" =
      .ok ["definitions/a.sqlx", "definitions/b.sqlx"] := by decide +kernel
    rw [hfiles] at hdiscovered
    cases hdiscovered
    decide
  refine ⟨proper_sampleTree, differAt_sampleMalformed, hrefused, m, m', hm, hm',
    of_decide_eq_true hfiles, of_decide_eq_true hfiles', ?_⟩
  exact (hall _ hmem (by decide +kernel) hclear).2 _ (by decide +kernel)

end Reconciliation

end ColumnMetadata
