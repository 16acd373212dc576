import ColumnMetadata.Proofs.Reconciliation.Isolation

/-!
# What is done with files without a block decides nothing else

Two runs in one tree are compared, one of which takes a file without a block for an empty definition
and the other for one that cannot be loaded. In the first the graph has a node for the file, which
others read; in the second it does without. Since that node has no columns and is given none
(`Reconciliation.Finished.final_eq_nil`), inheriting from it changes nothing
(`Reconciliation.merged_filter`), and the nodes that both graphs have come to the same columns
(`Reconciliation.Finished.final_strict`). So the runs write the same, and their reports differ in
the files without a block only (`Reconciliation.missing_blocks_change_outcomes_only`).
-/

namespace ColumnMetadata

namespace MissingBlockPolicy

theorem admit_lenient (file : String) (d : Definition) : lenient.admit file d = .ok d := by
  unfold MissingBlockPolicy.admit
  split
  · cases ‹lenient = strict›
  · rfl

theorem admit_strict (file : String) (d : Definition) :
    strict.admit file d = if d.block.isSome then .ok d else .error (.missingBlock file) := by
  unfold MissingBlockPolicy.admit
  cases d.block with
  | none => rfl
  | some b => rfl

end MissingBlockPolicy

namespace Reconciliation

open Node (look)

/-- The same reconciliation with another policy for files without a block. -/
def underPolicy (r : Reconciliation) (missingBlock : MissingBlockPolicy) : Reconciliation :=
  { r with options := { r.options with missingBlock } }

variable {r : Reconciliation} {refused : Refusals} {t : FileTree} {compiled : CompiledProject}

/-! ## Loading -/

/-- Under the strict policy a file is loaded as under the lenient one, and refused if it has no
block. -/
theorem load_strict (r : Reconciliation) (t : FileTree) (a : ActionDescriptor) :
    (r.underPolicy .strict).load t a = (r.underPolicy .lenient).load t a >>= fun d =>
      if d.block.isSome then .ok d else .error (.missingBlock a.fileName) := by
  unfold load underPolicy
  dsimp only
  rw [bind_assoc]
  apply bind_congr
  intro text
  rw [bind_assoc]
  apply bind_congr
  intro d
  rw [MissingBlockPolicy.admit_strict, MissingBlockPolicy.admit_lenient]
  rfl

theorem load_strict_eq_ok_iff {a : ActionDescriptor} {d : Definition} :
    (r.underPolicy .strict).load t a = .ok d ↔
      (r.underPolicy .lenient).load t a = .ok d ∧ d.block.isSome = true := by
  rw [load_strict, bind_eq_ok]
  constructor
  · rintro ⟨d', hload, hstrict⟩
    cases hblock : d'.block.isSome with
    | true =>
      rw [hblock, if_pos rfl] at hstrict
      cases hstrict
      exact ⟨hload, hblock⟩
    | false =>
      rw [hblock, if_neg nofun] at hstrict
      cases hstrict
  · rintro ⟨hload, hblock⟩
    exact ⟨d, hload, if_pos hblock⟩

theorem isOk_load_of_strict {a : ActionDescriptor}
    (h : ((r.underPolicy .strict).load t a).isOk = true) :
    ((r.underPolicy .lenient).load t a).isOk = true := by
  cases hload : (r.underPolicy .strict).load t a with
  | error e =>
    rw [hload] at h
    cases h
  | ok d =>
    rw [(load_strict_eq_ok_iff.1 hload).1]
    rfl

/-- A file that defines an action, can be read, and has no block. -/
def Blockless (r : Reconciliation) (t : FileTree) (compiled : CompiledProject) (g : String) : Prop :=
  (compiled.actionOf? g).isSome = true ∧
    ∃ text, t.readText (r.configuration.resolve g) = .ok text ∧
      Block.locate text.toList = .ok none

/-! ## Inheriting from nothing -/

/-- Dependencies that come to no columns might as well not be there. -/
theorem merged_filter (r : Reconciliation) (tables : List WarehouseTable)
    {n : GraphNode Definition} {final : Nat → Columns} {p : Nat → Bool}
    (h : ∀ d ∈ n.dependencies, p d = false → final d = []) :
    r.merged tables { n with dependencies := n.dependencies.filter p } final =
      r.merged tables n final := by
  have hfold : ∀ cs : Columns,
      (n.dependencies.filter p).foldl (fun cs d => (cs.inherit (final d)).columns) cs =
        n.dependencies.foldl (fun cs d => (cs.inherit (final d)).columns) cs := by
    intro cs
    rw [List.foldl_filter]
    apply List.foldl_ext
    intro cs d hd
    cases hp : p d with
    | true => exact if_pos rfl
    | false =>
      rw [if_neg nofun, h d hd hp]
      rfl
  unfold merged
  dsimp only
  split
  · rw [hfold]
  · rfl

/-! ## Two runs -/

section Two

variable {path : String} {p p' : Plan} {tables tables' : List WarehouseTable}
  {final final' : Nat → Columns} {s s' : FileTree × Report}
  (h : (r.underPolicy .lenient).Finished refused t compiled path p tables final s)
  (h' : (r.underPolicy .strict).Finished refused t compiled path p' tables' final' s')
  (hkeys : ∀ a ∈ compiled.actions, ∀ b ∈ compiled.actions, a.target.key = b.target.key → a = b)
  (hown : r.warehouse.OwnTables)

include h in
/-- A node without a block has no columns in the end. -/
theorem Finished.final_eq_nil {i : Nat} {n : GraphNode Definition}
    (hn : p.build.graph.node? i = some n) (hblock : n.content.block = none) : final i = [] := by
  have hkept : rewritten? tables n (final i) = none := by rw [rewritten?, hblock]
  rw [h.solves.eq_content hn fun _ => hkept, Definition.columns,
    Definition.metadata_of_parse (of_load (h.made.loaded hn)).2 hblock]
  rfl

/-- Whether the node in a place is one under the strict policy as well. -/
def remains (r : Reconciliation) (t : FileTree) (p : Plan) (i : Nat) : Bool :=
  (p.build.action? i).any fun a => ((r.underPolicy .strict).load t a).isOk

include h in
/-- A node that the strict run does without has no columns in the end. -/
theorem Finished.final_eq_nil_of_not_remains {i : Nat} (hi : remains r t p i = false) :
    final i = [] := by
  cases hn : p.build.graph.node? i with
  | none =>
    have hfinal := h.solves i
    rwa [hn] at hfinal
  | some n =>
    refine h.final_eq_nil hn ?_
    have haction : p.build.action? i = some n.action := congrArg (Option.map GraphNode.action) hn
    rw [remains, haction, Option.any_some, load_strict, h.made.loaded hn] at hi
    cases hblock : n.content.block with
    | none => rfl
    | some b =>
      have hok : (if n.content.block.isSome = true then Except.ok n.content
        else Except.error (LoadError.missingBlock n.action.fileName)).isOk = false := hi
      rw [hblock] at hok
      cases hok

include h h' in
theorem Finished.files_strict : p'.files = p.files :=
  Except.ok.inj (h'.made.files.symm.trans h.made.files)

section Twins

variable {i i' : Nat} {n n' : GraphNode Definition} (hn : p.build.graph.node? i = some n)
  (hn' : p'.build.graph.node? i' = some n') (haction : n'.action = n.action)

include h h' hn hn' haction in
theorem Finished.content_strict : n'.content = n.content := by
  obtain ⟨hload, -⟩ := load_strict_eq_ok_iff.1 (h'.made.loaded hn')
  rw [haction, h.made.loaded hn] at hload
  exact (Except.ok.inj hload).symm

include h h' hn hn' haction in
theorem Finished.requested_strict : n'.requested = n.requested := by
  rw [Bool.eq_iff_iff, h'.requested_iff hn', h.requested_iff hn, haction,
    Finished.files_strict h h']

include h h' hown hn hn' haction in
theorem Finished.table_strict (hrequested : n.requested = true) :
    findTable? tables' n'.action.target.schema n'.action.target.name =
      findTable? tables n.action.target.schema n.action.target.name := by
  have hrequested' := (Finished.requested_strict h h' hn hn' haction).trans hrequested
  have hproject : p'.project = p.project :=
    Except.ok.inj (h'.made.project.symm.trans h.made.project)
  rw [h'.findTable?_eq hown hn' hrequested', h.findTable?_eq hown hn hrequested, haction, hproject]
  rfl

include h h' hkeys hn hn' haction in
/-- The strict run inherits from those of the nodes that remain. -/
theorem Finished.map_action?_strict (hrequested : n.requested = true) :
    n'.dependencies.map p'.build.action? =
      (n.dependencies.filter (remains r t p)).map p.build.action? := by
  have hreads := map_action?_dependencies_of_made h.made h.compile hkeys hn hrequested
  have hreads' := map_action?_dependencies_of_made h'.made h'.compile hkeys hn'
    ((Finished.requested_strict h h' hn hn' haction).trans hrequested)
  have hremains : remains r t p =
      (Option.any fun a => ((r.underPolicy .strict).load t a).isOk) ∘ p.build.action? := rfl
  rw [haction, CompiledProject.reads_filter fun _ => isOk_load_of_strict] at hreads'
  rw [hreads', hremains, ← List.filter_map, hreads, List.filter_map]
  rfl

end Twins

include h h' hkeys hown in
/-- The nodes that both graphs have for an action come to the same columns. -/
theorem Finished.final_strict {i i' : Nat} {n n' : GraphNode Definition}
    (hn : p.build.graph.node? i = some n) (hn' : p'.build.graph.node? i' = some n')
    (haction : n'.action = n.action) : final' i' = final i := by
  have hwf := h.made.ordering.wellFounded h.made.leavesOutside
  induction i using hwf.induction generalizing n i' n' with
  | _ i ih =>
    have hcontent := Finished.content_strict h h' hn hn' haction
    have hrequested := Finished.requested_strict h h' hn hn' haction
    have hmerged : (r.underPolicy .strict).merged tables' n' final' =
        (r.underPolicy .lenient).merged tables' n' final' := rfl
    rw [h.solves.eq_merged hn, h'.solves.eq_merged hn', hmerged,
      ← merged_filter (r.underPolicy .lenient) tables fun d _ hd => h.final_eq_nil_of_not_remains hd]
    have htable := Finished.table_strict h h' hown hn hn' haction
    refine merged_eq_of_eq _ hcontent hrequested htable fun hr => ?_
    have hsame := Finished.map_action?_strict h h' hkeys hn hn' haction hr
    apply map_eq_map_of_map_eq hsame
    intro d' hd' d hd hdd'
    obtain ⟨hmem, hremains⟩ := List.mem_filter.1 hd
    obtain ⟨a, ha, -⟩ := (Option.any_eq_true ..).1 hremains
    obtain ⟨m, hm, rfl⟩ := Option.map_eq_some_iff.1 ha
    obtain ⟨m', hm', hmm'⟩ := Option.map_eq_some_iff.1 (hdd'.trans ha)
    exact ih d (DefinitionGraph.dependencies_of_node? hn ▸ hmem) hm hm' hmm'

include h h' hkeys hown in
/-- A file that both policies load, or that neither does, ends alike under both. -/
theorem Finished.file_strict {g : String} (hg : g ∈ p.files)
    (hload : ∀ a, compiled.actionOf? g = some a →
      (r.underPolicy .strict).load t a = (r.underPolicy .lenient).load t a) :
    (∃ o, o.file = g ∧ o ∈ s.2.files ∧ o ∈ s'.2.files) ∧
      ∀ place, t.locate (r.configuration.resolve g) = .ok place →
        look place s'.1.top = look place s.1.top := by
  refine Finished.alike h h' hg (Finished.files_strict h h' ▸ hg) rfl (fun _ _ => ⟨rfl, rfl⟩) hload
    fun i n i' n' hn hn' hrequested haction _ => ?_
  rw [rewritten?, rewritten?, Finished.content_strict h h' hn hn' haction,
    Finished.table_strict h h' hown hn hn' haction hrequested,
    Finished.final_strict h h' hkeys hown hn hn' haction]

include h h' in
/-- A file without a block is skipped under one policy and has failed under the other, for the same
reason, and it stays as it was. -/
theorem Finished.of_blockless {g : String} (hg : g ∈ p.files) (hblockless : r.Blockless t compiled g) :
    (⟨g, .skipped, some DiagnosticCode.configBlockMissing.name⟩ : FileOutcome) ∈ s.2.files ∧
      (⟨g, .failed, some DiagnosticCode.configBlockMissing.name⟩ : FileOutcome) ∈ s'.2.files ∧
      ∀ place, t.locate (r.configuration.resolve g) = .ok place →
        look place s'.1.top = look place s.1.top := by
  obtain ⟨haction, text, htext, hlocate⟩ := hblockless
  obtain ⟨a, ha⟩ := Option.isSome_iff_exists.1 haction
  have hname : a.fileName = g := GraphBuild.mem_of_actionOf? ha
  subst hname
  have hparse : Definition.parse text = .ok ⟨text, none, .emptyTable⟩ := by
    rw [Definition.parse, hlocate]
    rfl
  have hload : (r.underPolicy .lenient).load t a = .ok ⟨text, none, .emptyTable⟩ := by
    refine bind_eq_ok.2 ⟨text, mapError_eq_ok.2 htext, bind_eq_ok.2 ⟨_, mapError_eq_ok.2 hparse, ?_⟩⟩
    exact MissingBlockPolicy.admit_lenient a.fileName _
  have hstrict : (r.underPolicy .strict).load t a = .error (.missingBlock a.fileName) := by
    rw [load_strict, hload]
    rfl
  obtain ⟨i, n, hn, hrequested, rfl⟩ :=
    exists_node_of_made h.made h.compile hg ha (by rw [hload]; rfl)
  have hcontent := h.made.loaded hn
  rw [hload, Except.ok.injEq] at hcontent
  have hblock : n.content.block = none := by rw [← hcontent]
  have hkept : rewritten? tables n (final i) = none := by rw [rewritten?, hblock]
  obtain ⟨place, hplace, htext⟩ := FileTree.readText_eq_ok.1 (of_load (h.made.loaded hn)).1
  obtain ⟨ho, hlook⟩ := h.of_node hn hrequested hplace
  obtain ⟨ho', hlook'⟩ := h'.of_load_error (Finished.files_strict h h' ▸ hg) ha hstrict
  rw [hkept, ending, skipCode, hblock] at ho
  refine ⟨ho, ho', fun place' hplace' => ?_⟩
  cases hplace.symm.trans hplace'
  rw [hlook' place hplace, hlook, hkept, lastText, Option.getD_none, ite_self, htext]

end Two

/-- A file that is not without a block is loaded alike under both policies. -/
theorem load_strict_of_not_blockless {g : String} (h : ¬r.Blockless t compiled g)
    {a : ActionDescriptor} (ha : compiled.actionOf? g = some a) :
    (r.underPolicy .strict).load t a = (r.underPolicy .lenient).load t a := by
  rw [load_strict]
  cases hload : (r.underPolicy .lenient).load t a with
  | error e => rfl
  | ok d =>
    cases hblock : d.block with
    | some b => exact if_pos (by rw [hblock]; rfl)
    | none =>
      obtain ⟨htext, hparse⟩ := of_load hload
      rw [GraphBuild.mem_of_actionOf? ha] at htext
      refine absurd ⟨?_, d.text, htext, (Definition.block_eq_none_iff hparse).1 hblock⟩ h
      rw [ha]
      rfl

/-- A place that a run has changed is that of a discovered file. -/
theorem Finished.exists_file_of_changed {path : String} {p : Plan} {tables : List WarehouseTable}
    {final : Nat → Columns} {s : FileTree × Report}
    (h : r.Finished refused t compiled path p tables final s) {q : List String}
    (hq : look q s.1.top ≠ look q t.top) :
    ∃ g ∈ p.files, t.locate (r.configuration.resolve g) = .ok q := by
  obtain ⟨_, -, hconcluded⟩ := h.concluded
  obtain ⟨id, n, hn, hrequested, -, hplace⟩ := hconcluded.exists_changed h.made hq
  exact ⟨n.action.fileName, h.made.mem_files hn hrequested, hplace⟩

/-- When the runs under both policies come to an end, they leave the same at every place. Under both
each discovered file ends with the same outcome, unless it can be read and has no block: such a file
is skipped under the lenient policy and has failed under the strict one, for the same reason. The
system may refuse to replace files, the same ones in both runs. -/
theorem missing_blocks_change_outcomes_only {timestamp timestamp' path : String} {m m' : Merging}
    (ht : t.top.Proper) (hcompile : r.compiler.compile t = .ok compiled)
    (hkeys : ∀ a ∈ compiled.actions, ∀ b ∈ compiled.actions, a.target.key = b.target.key → a = b)
    (hown : r.warehouse.OwnTables)
    (h : ((r.underPolicy .lenient).runAmid id timestamp t path refused).result = .ok m)
    (h' : ((r.underPolicy .strict).runAmid id timestamp' t path refused).result = .ok m') :
    (∀ q, look q ((r.underPolicy .strict).runAmid id timestamp' t path refused).tree.top =
      look q ((r.underPolicy .lenient).runAmid id timestamp t path refused).tree.top) ∧
    ∃ files, r.configuration.definitionFiles t path = .ok files ∧ ∀ g ∈ files,
      (r.Blockless t compiled g →
        m.report.outcome? g = some ⟨g, .skipped, some DiagnosticCode.configBlockMissing.name⟩ ∧
        m'.report.outcome? g = some ⟨g, .failed, some DiagnosticCode.configBlockMissing.name⟩) ∧
      (¬r.Blockless t compiled g →
        ∃ o, m.report.outcome? g = some o ∧ m'.report.outcome? g = some o) := by
  obtain ⟨htree, p, tables, hfinished⟩ :=
    finished_of_runAmid (r := r.underPolicy .lenient) ht hcompile h
  obtain ⟨htree', p', tables', hfinished'⟩ :=
    finished_of_runAmid (r := r.underPolicy .strict) ht hcompile h'
  have hunique := nodup_files_of_runAmid h
  have hunique' := nodup_files_of_runAmid h'
  have hsame : ∀ g ∈ p.files, ∀ place, t.locate (r.configuration.resolve g) = .ok place →
      look place m'.tree.top = look place m.tree.top := by
    intro g hg
    by_cases hblockless : r.Blockless t compiled g
    · exact (Finished.of_blockless hfinished hfinished' hg hblockless).2.2
    · exact (Finished.file_strict hfinished hfinished' hkeys hown hg
        fun a ha => load_strict_of_not_blockless hblockless ha).2
  refine ⟨fun q => ?_, p.files, hfinished.made.files, fun g hg => ⟨fun hblockless => ?_,
    fun hblockless => ?_⟩⟩
  · rw [htree, htree']
    by_cases hq : look q m.tree.top = look q t.top
    · by_cases hq' : look q m'.tree.top = look q t.top
      · exact hq'.trans hq.symm
      · obtain ⟨g, hg, hplace⟩ := hfinished'.exists_file_of_changed hq'
        exact hsame g (Finished.files_strict hfinished hfinished' ▸ hg) q hplace
    · obtain ⟨g, hg, hplace⟩ := hfinished.exists_file_of_changed hq
      exact hsame g hg q hplace
  · obtain ⟨ho, ho', -⟩ := Finished.of_blockless hfinished hfinished' hg hblockless
    exact ⟨Report.outcome?_eq_some hunique ho, Report.outcome?_eq_some hunique' ho'⟩
  · obtain ⟨⟨o, rfl, ho, ho'⟩, -⟩ := Finished.file_strict hfinished hfinished' hkeys hown hg
      fun a ha => load_strict_of_not_blockless hblockless ha
    exact ⟨o, Report.outcome?_eq_some hunique ho, Report.outcome?_eq_some hunique' ho'⟩

/-- The second file has no block. -/
def sampleBlockless : FileTree :=
  { sampleTree with
    top := Node.put (.file (.text "select 1")) ["p", "definitions", "b.sqlx"] sampleTree.top }

/-- The first file is updated whether the second one, which it is made from, is skipped or fails. -/
theorem missing_blocks_change_outcomes_only_sample :
    sampleBlockless.top.Proper ∧
    ∃ m m',
      ((sample.underPolicy .lenient).runAmid id "now" sampleBlockless "definitions").result = .ok m ∧
      ((sample.underPolicy .strict).runAmid id "now" sampleBlockless "definitions").result = .ok m' ∧
      m.report.files = [⟨"definitions/b.sqlx", .skipped, some "CONFIG_BLOCK_MISSING"⟩,
        ⟨"definitions/a.sqlx", .updated, none⟩] ∧
      m'.report.files = [⟨"definitions/b.sqlx", .failed, some "CONFIG_BLOCK_MISSING"⟩,
        ⟨"definitions/a.sqlx", .updated, none⟩] ∧
      ∀ q,
        look q ((sample.underPolicy .strict).runAmid id "now" sampleBlockless
            "definitions").tree.top =
          look q ((sample.underPolicy .lenient).runAmid id "now" sampleBlockless
            "definitions").tree.top := by
  have hproper : sampleBlockless.top.Proper :=
    proper_sampleTree.of_outline (Node.outline_put
      (c := .text "config \x7bcolumns: \x7bid: 'key'\x7d\x7d\nselect 1") (by decide +kernel) _)
  obtain ⟨m, hm, hfiles⟩ : ∃ m,
      ((sample.underPolicy .lenient).runAmid id "now" sampleBlockless "definitions").result = .ok m ∧
      decide (m.report.files = [⟨"definitions/b.sqlx", .skipped, some "CONFIG_BLOCK_MISSING"⟩,
        ⟨"definitions/a.sqlx", .updated, none⟩]) = true := exists_ok_of_any (by decide +kernel)
  obtain ⟨m', hm', hfiles'⟩ : ∃ m',
      ((sample.underPolicy .strict).runAmid id "now" sampleBlockless "definitions").result = .ok m' ∧
      decide (m'.report.files = [⟨"definitions/b.sqlx", .failed, some "CONFIG_BLOCK_MISSING"⟩,
        ⟨"definitions/a.sqlx", .updated, none⟩]) = true := exists_ok_of_any (by decide +kernel)
  obtain ⟨hsame, -⟩ := missing_blocks_change_outcomes_only hproper rfl separable_sample.keys
    separable_sample.ownTables hm hm'
  exact ⟨hproper, m, m', hm, hm', of_decide_eq_true hfiles, of_decide_eq_true hfiles', hsame⟩

end Reconciliation

end ColumnMetadata
