import ColumnMetadata.Proofs.Reconciliation.Plan
import ColumnMetadata.Warehouse.Simulated

/-!
# A run computes the solution of the merge equations

For every run that comes to an end the merge equations of its graph have one solution, the run has
it in memory, and the file of each completed node says on disk what the solution says
(`Reconciliation.run_solves_merge_equations`).
-/

namespace ColumnMetadata.Reconciliation

open Node (look)

variable {r : Reconciliation} {refused : Refusals} {tables : List WarehouseTable}
  {g : DefinitionGraph Definition} {final : Nat → Columns}

/-- Behind the end of a node its file holds the new text, unless its writing failed, or there was
nothing to write and somebody else has changed the file. -/
theorem Concluded.readText {before s : FileTree × Report} {ids : List Nat}
    (h : r.Concluded refused tables g final before ids s)
    (hapart : ∀ i ∈ ids, ∀ j ∈ ids, ∀ place, r.IsPlace g before.1 i place →
      r.IsPlace g before.1 j place → i = j)
    {id : Nat} (hid : id ∈ ids) {n : GraphNode Definition} (hn : g.node? id = some n) {new : String}
    (hnew : rewritten? tables n (final id) = some new) {o : FileOutcome}
    (hends : r.Ends refused tables g final before.1 s.1 id o) (hwritten : o.status ≠ .failed)
    (hkept : new = n.content.text →
      before.1.readText (r.configuration.resolve n.action.fileName) = .ok n.content.text) :
    s.1.readText (r.configuration.resolve n.action.fileName) = .ok new := by
  cases hends with
  | skipped hn' hnone =>
    rw [hn] at hn'
    cases hn'
    rw [hnew] at hnone
    cases hnone
  | unchanged hn' hnew' hsame =>
    rw [hn] at hn'
    cases hn'
    rw [hnew] at hnew'
    cases hnew'
    obtain ⟨place, hplace, hlook⟩ := FileTree.readText_eq_ok.1 (hkept hsame)
    refine FileTree.readText_eq_ok.2 ⟨place, h.directories.locate hplace, ?_⟩
    rw [hsame, ← hlook]
    refine Decidable.byContradiction fun hchanged => ?_
    -- Only an update could have changed the place, but the text of this node stays the same.
    obtain ⟨j, hj, hjplace, o', -, hstatus, hends'⟩ := h.changed place hchanged
    obtain rfl := hapart j hj id hid place hjplace ⟨n, hn, hplace⟩
    cases hends' with
    | updated hn' hnew' hchange _ _ _ =>
      rw [hn] at hn'
      cases hn'
      rw [hnew] at hnew'
      cases hnew'
      exact hchange hsame
    | _ => cases hstatus
  | updated hn' hnew' _ hplace _ hlook =>
    rw [hn] at hn'
    cases hn'
    rw [hnew] at hnew'
    cases hnew'
    exact FileTree.readText_eq_ok.2 ⟨_, h.directories.locate hplace, hlook⟩
  | failed _ _ _ _ => exact absurd rfl hwritten

/-- A run that comes to an end has put its requested nodes in an order in which none comes before
one that it depends on. Its merge equations, in which each file says what was read from it at the
beginning, are well founded and have one solution: what the run has in memory. And each requested
node with a block and a table has the solution on disk, in its block and with everything else as it
was, unless its writing failed, or there was nothing to write and somebody else changed the file. -/
theorem run_solves_merge_equations {meanwhile : FileTree → FileTree} {refused : Refusals}
    {timestamp path : String} {t : FileTree} {m : Merging} (ht : t.top.Proper)
    (h : (r.runAmid meanwhile timestamp t path refused).result = .ok m) :
    ∃ (p : Plan) (tables : List WarehouseTable) (report : Report), r.plan t path = .ok p ∧
      collectListings (p.report timestamp) (r.ask p.project p.datasets) = .ok (tables, report) ∧
      (∀ id n, p.build.graph.node? id = some n → r.load t n.action = .ok n.content) ∧
      (∀ before id after, p.order = before ++ id :: after →
        ∀ d ∈ p.build.graph.dependencies id, d ∈ p.build.graph.requested → d ∈ before) ∧
      WellFounded (fun d id => d ∈ p.build.graph.dependencies id) ∧
      (∀ final, r.Solves tables p.build.graph final ↔ final = m.graph.columns) ∧
      ∀ id n b table, p.build.graph.node? id = some n → n.requested = true →
        n.content.block = some b →
        findTable? tables n.action.target.schema n.action.target.name = some table →
        n.content.text.toList = b.before ++ b.content ++ b.after ∧
        ∃ new : String, new.toList =
            b.before ++ (n.content.withColumns (m.graph.columns id)).metadata.render ++ b.after ∧
          ((∀ reason, ⟨n.action.fileName, .failed, reason⟩ ∉ m.report.files) →
            (new = n.content.text →
              (meanwhile t).readText (r.configuration.resolve n.action.fileName) =
                .ok n.content.text) →
            (r.runAmid meanwhile timestamp t path refused).tree.readText
              (r.configuration.resolve n.action.fileName) = .ok new) := by
  obtain ⟨p, tables, report, hplan, hmade, hlisted, htree, -, hprogress, hconcluded⟩ :=
    of_runAmid_eq_ok ht h
  have hwf := hmade.ordering.wellFounded hmade.leavesOutside
  refine ⟨p, tables, report, hplan, hlisted, fun id n hn => hmade.loaded hn,
    fun before id after he d hd hdr => hmade.ordering.mem_before he hd hdr, hwf,
    fun final => ⟨fun hfinal => hfinal.unique hwf (hprogress.solves hmade.ordering), ?_⟩, ?_⟩
  · rintro rfl
    exact hprogress.solves hmade.ordering
  · intro id n b table hn hrequested hblock htable
    have hid := (hmade.ordering.mem id).2 (DefinitionGraph.mem_requested.2 ⟨n, hn, hrequested⟩)
    have hparse := (of_load (hmade.loaded hn)).2
    refine ⟨(Block.text_of_locate (Definition.parse_block hparse hblock).2.1).symm,
      String.ofList (b.replace (n.content.withColumns (m.graph.columns id)).metadata.render),
      String.toList_ofList, fun hwritten hkept => ?_⟩
    obtain ⟨o, ho, hends⟩ := hconcluded.exists_outcome hid
    rw [htree]
    refine hconcluded.readText (hmade.apart ht _) hid hn ?_ hends (fun hstatus => ?_) fun hsame => ?_
    · rw [rewritten?, hblock, htable]
    · cases hends with
      | failed hn' _ _ _ =>
        rw [hn] at hn'
        cases hn'
        exact hwritten _ ho
      | _ => cases hstatus
    · have hasked : p.datasets.isEmpty = false :=
        List.isEmpty_eq_false_iff.2 (List.ne_nil_of_mem (mem_datasets hid hn))
      rw [hasked]
      exact hkept hsame

/-! ## A small project -/

/-- A table that is made in a file of its own from other tables. -/
def sampleAction (name : String) (sources : List String) : ActionDescriptor :=
  ⟨"definitions/" ++ name ++ ".sqlx", ⟨"ds", name, none⟩, none,
    sources.map fun s => ⟨"ds", s, none⟩, none, false⟩

/-- Two tables, of which the first is made from the second. -/
def sampleProject : CompiledProject :=
  ⟨[sampleAction "a" ["b"], sampleAction "b" []], [], [], [], [], [], none⟩

/-- The files of the two tables. -/
def sampleTree : FileTree :=
  ⟨.directory [("p", .directory [("definitions", .directory [
    ("a.sqlx", .file (.text "config \x7b\x7d\nselect * from b")),
    ("b.sqlx", .file (.text "config \x7bcolumns: \x7bid: 'key'\x7d\x7d\nselect 1"))])])], []⟩

/-- The project of the two tables, in a warehouse that knows both. -/
def sample : Reconciliation where
  configuration := .default "/p"
  settings := ⟨"p", "", "", ""⟩
  options := ⟨.lenient, true⟩
  compiler := .fixed "1" sampleProject
  warehouse := (SimulatedWarehouse.empty "p"
    |>.addTable ⟨"ds", "a", [⟨"id", none, none⟩]⟩
    |>.addTable ⟨"ds", "b", [⟨"at", some "time", none⟩, ⟨"id", none, some ["t"]⟩]⟩).toWarehouse

/-- A directory comes in the place of the second file. -/
def sampleObstruction (t : FileTree) : FileTree :=
  { t with top := Node.put .empty ["p", "definitions", "b.sqlx"] t.top }

/-- One of the files may not be replaced. -/
def sampleRefusals (name : String) : Refusals :=
  fun place => if place = ["p", "definitions", name] then some .permissionDenied else none

theorem proper_sampleTree : sampleTree.top.Proper := by
  refine .directory (by decide) (by decide +kernel) (List.forall_mem_singleton.2 ?_)
  refine .directory (by decide) (by decide +kernel) (List.forall_mem_singleton.2 ?_)
  refine .directory (by decide) (by decide +kernel) (List.forall_mem_cons.2 ⟨.file _, ?_⟩)
  exact List.forall_mem_singleton.2 (.file _)

/-- The second file may not be replaced, but the first inherits what it would say. -/
theorem run_solves_merge_equations_sample :
    sampleTree.top.Proper ∧
    ∃ m, (sample.runAmid id "now" sampleTree "definitions" (sampleRefusals "b.sqlx")).result =
        .ok m ∧
      m.report.files = [⟨"definitions/b.sqlx", .failed, some "WRITE_FAILED"⟩,
        ⟨"definitions/a.sqlx", .updated, none⟩] ∧
      ∃ p tables, sample.plan sampleTree "definitions" = .ok p ∧
        WellFounded (fun d id => d ∈ p.build.graph.dependencies id) ∧
        ∀ final, sample.Solves tables p.build.graph final ↔ final = m.graph.columns := by
  obtain ⟨m, hm, hfiles⟩ : ∃ m,
      (sample.runAmid id "now" sampleTree "definitions" (sampleRefusals "b.sqlx")).result =
        .ok m ∧
      decide (m.report.files = [⟨"definitions/b.sqlx", .failed, some "WRITE_FAILED"⟩,
        ⟨"definitions/a.sqlx", .updated, none⟩]) = true := exists_ok_of_any (by decide +kernel)
  obtain ⟨p, tables, _, hplan, -, -, -, hwf, hsolves, -⟩ :=
    run_solves_merge_equations proper_sampleTree hm
  exact ⟨proper_sampleTree, m, hm, of_decide_eq_true hfiles, p, tables, hplan, hwf, hsolves⟩

end ColumnMetadata.Reconciliation
