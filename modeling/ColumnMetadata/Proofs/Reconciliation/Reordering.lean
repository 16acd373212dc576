import ColumnMetadata.Proofs.Definition.Permuting
import ColumnMetadata.Proofs.Reconciliation.Frame

/-!
# Putting columns in order changes nothing else

Two runs are compared, of which one puts the columns of each file in the order of its table. They
have the same plan, and by induction over the dependencies every node comes to the same columns up
to their order (`Reconciliation.Solves.perm`), though what a node inherits from may stand in another
order. So what they leave on disk differs in the order of columns within blocks and in nothing else
(`Reconciliation.reordering_keeps_metadata`).
-/

namespace ColumnMetadata

open Node (look)

/-! ## In memory -/

namespace RunOptions

theorem complete_perm_fill (o : RunOptions) (cs : Columns) (table : WarehouseTable)
    (ds : List Columns) : (o.complete cs table ds).Perm (cs.fill table ds).columns := by
  unfold complete
  dsimp only
  split
  · exact Columns.reorder_perm table.columnNames _
  · exact .refl _

/-- Whether or not columns are put in order, and in whatever order those of the dependencies stand,
the same columns come of them. -/
theorem perm_complete {P : Number → Prop} (o o' : RunOptions) {cs : Columns}
    (hcs : cs.WellFormedWith P) (table : WarehouseTable) {ids : List Nat} {f f' : Nat → Columns}
    (hf : ∀ i ∈ ids, (f i).WellFormedWith P) (h : ∀ i ∈ ids, (f' i).Perm (f i)) :
    (o'.complete cs table (ids.map f')).Perm (o.complete cs table (ids.map f)) := by
  have hfilled := Columns.perm_fill hcs table hf h
  exact (o'.complete_perm_fill ..).trans (hfilled.trans (o.complete_perm_fill ..).symm)

end RunOptions

namespace Reconciliation

theorem perm_merged {P : Number → Prop} (r r' : Reconciliation) (tables : List WarehouseTable)
    {n : GraphNode Definition} (hread : n.content.columns.WellFormedWith P)
    {final final' : Nat → Columns} (hwell : ∀ d ∈ n.dependencies, (final d).WellFormedWith P)
    (h : ∀ d ∈ n.dependencies, (final' d).Perm (final d)) :
    (r'.merged tables n final').Perm (r.merged tables n final) := by
  unfold merged
  split
  · rw [← complete_eq, ← complete_eq]
    exact RunOptions.perm_complete _ _ hread _ hwell h
  · exact .refl _

/-- Solutions of the equations with columns in order and of those without are the same up to the
order of columns. -/
theorem Solves.perm {P : Number → Prop} {r r' : Reconciliation} {tables : List WarehouseTable}
    {g : DefinitionGraph Definition} (hwf : WellFounded fun d id => d ∈ g.dependencies id)
    {final final' : Nat → Columns} (h : r.Solves tables g final) (h' : r'.Solves tables g final')
    (hread : ∀ id n, g.node? id = some n → n.content.columns.WellFormedWith P) (id : Nat) :
    (final' id).Perm (final id) := by
  induction id using hwf.induction with
  | _ id ih =>
    rw [h id, h' id]
    cases hn : g.node? id with
    | none => exact .refl _
    | some n =>
      have hdependencies : g.dependencies id = n.dependencies :=
        DefinitionGraph.dependencies_of_node? hn
      exact perm_merged r r' tables (hread id n hn) (fun d _ => h.wellFormed hwf hread d)
        fun d hd => ih d (hdependencies ▸ hd)

/-! ## On disk -/

/-- The same reconciliation with columns put in the order of their tables, or not. -/
def reordering (r : Reconciliation) (reorderColumns : Bool) : Reconciliation :=
  { r with options := { r.options with reorderColumns } }

/-- Two texts that are read as definitions which differ in the order of their columns only. -/
def TextsPermuted (text text' : String) : Prop :=
  ∃ d d', Definition.parse text = .ok d ∧ Definition.parse text' = .ok d' ∧ d.Permuted d'

/-- New texts of one node for the same columns in different orders. -/
theorem textsPermuted_of_rewritten {tables : List WarehouseTable} {n : GraphNode Definition}
    (hparse : Definition.parse n.content.text = .ok n.content) {cs cs' : Columns}
    (hcs : cs.WellFormedWith Number.Legible) (hperm : cs'.Perm cs) {new new' : String}
    (hnew : rewritten? tables n cs = some new) (hnew' : rewritten? tables n cs' = some new') :
    TextsPermuted new new' := by
  obtain ⟨b, table, hblock, -, rfl⟩ := rewritten?_eq_some.1 hnew
  obtain ⟨b', table', hblock', -, rfl⟩ := rewritten?_eq_some.1 hnew'
  cases hblock.symm.trans hblock'
  obtain ⟨-, hlocated, -⟩ := Definition.parse_block hparse hblock
  have hwell := (Definition.wellFormedWith_of_parse hparse hblock).withColumns hcs
  exact Definition.permuted_replace hlocated hwell hperm

section Runs

variable {r : Reconciliation} {b b' : Bool} {refused refused' : Refusals} {t u : FileTree}
  {path : String} {p : Plan} {tables : List WarehouseTable} {final final' : Nat → Columns}
  {s s' : FileTree × Report} {report report' : Report}

/-- Where the first run has changed a file, it has put the new text of a node there, and unless a
write has failed the second run has the node's new text there as well. -/
theorem Concluded.texts_of_changed (ht : t.top.Proper) (hmade : p.Made (r.reordering b) t path)
    (hmade' : p.Made (r.reordering b') t path) (hu : t.Obstructed u)
    (h : (r.reordering b).Concluded refused tables p.build.graph final (u, report) p.order s)
    (h' : (r.reordering b').Concluded refused' tables p.build.graph final' (u, report') p.order s')
    (hwritten : ∀ o ∈ s'.2.files, o.reason ≠ some DiagnosticCode.writeFailed.name)
    {q : List String} (hq : look q s.1.top ≠ look q u.top) :
    ∃ id n new new', p.build.graph.node? id = some n ∧
      rewritten? tables n (final id) = some new ∧ rewritten? tables n (final' id) = some new' ∧
      look q s.1.top = some (some (.text new)) ∧ look q s'.1.top = some (some (.text new')) := by
  obtain ⟨id, hid, ⟨n, hn, hplace⟩, o, -, hstatus, hends⟩ := h.changed q hq
  obtain ⟨new, hnew, hlook⟩ : ∃ new, rewritten? tables n (final id) = some new ∧
      look q s.1.top = some (some (.text new)) := by
    cases hends with
    | updated hn' hnew _ hplace' _ hlook =>
      cases hn.symm.trans hn'
      cases hplace.symm.trans hplace'
      exact ⟨_, hnew, hlook⟩
    | _ => cases hstatus
  obtain ⟨block, table, hblock, htable, -⟩ := rewritten?_eq_some.1 hnew
  obtain ⟨new', hnew'⟩ : ∃ new', rewritten? tables n (final' id) = some new' :=
    ⟨_, rewritten?_eq_some.2 ⟨block, table, hblock, htable, rfl⟩⟩
  obtain ⟨o', ho', hends'⟩ := h'.exists_outcome hid
  have hfine : o'.status ≠ .failed := by
    intro hfailed
    cases hends' with
    | failed _ _ _ _ => exact hwritten _ ho' rfl
    | _ => cases hfailed
  have hread := h'.readText (hmade'.apart ht u) hid hn hnew' hends' hfine fun _ =>
    FileTree.readText_eq_ok.2 ⟨q, hplace, h.look_of_updated hmade hu hn hplace hlook⟩
  obtain ⟨place, hplace', hlook'⟩ := FileTree.readText_eq_ok.1 hread
  cases (h'.directories.locate hplace).symm.trans hplace'
  exact ⟨id, n, new, new', hn, hnew, hnew', hlook, hlook'⟩

/-- When nodes come to the same columns up to their order and no write fails, the two runs leave the
same at a place, or texts that differ in this order only. -/
theorem Concluded.same_or_permuted (ht : t.top.Proper) (hmade : p.Made (r.reordering b) t path)
    (hmade' : p.Made (r.reordering b') t path) (hu : t.Obstructed u)
    (h : (r.reordering b).Concluded refused tables p.build.graph final (u, report) p.order s)
    (h' : (r.reordering b').Concluded refused' tables p.build.graph final' (u, report') p.order s')
    (hwritten : ∀ o ∈ s.2.files, o.reason ≠ some DiagnosticCode.writeFailed.name)
    (hwritten' : ∀ o ∈ s'.2.files, o.reason ≠ some DiagnosticCode.writeFailed.name)
    (hwell : ∀ id, (final id).WellFormedWith Number.Legible)
    (hperm : ∀ id, (final' id).Perm (final id)) (q : List String) :
    look q s'.1.top = look q s.1.top ∨ ∃ text text',
      look q s.1.top = some (some (.text text)) ∧ look q s'.1.top = some (some (.text text')) ∧
      TextsPermuted text text' := by
  have htexts : ∀ {id n new new'}, p.build.graph.node? id = some n →
      rewritten? tables n (final id) = some new → rewritten? tables n (final' id) = some new' →
      TextsPermuted new new' := by
    intro id n new new' hn hnew hnew'
    have hparse := (of_load (hmade.loaded hn)).2
    exact textsPermuted_of_rewritten hparse (hwell id) (hperm id) hnew hnew'
  by_cases hq : look q s.1.top = look q u.top
  · by_cases hq' : look q s'.1.top = look q u.top
    · exact .inl (hq'.trans hq.symm)
    · obtain ⟨id, n, new', new, hn, hnew', hnew, hlook', hlook⟩ :=
        h'.texts_of_changed ht hmade' hmade hu h hwritten hq'
      exact .inr ⟨new, new', hlook, hlook', htexts hn hnew hnew'⟩
  · obtain ⟨id, n, new, new', hn, hnew, hnew', hlook, hlook'⟩ :=
      h.texts_of_changed ht hmade hmade' hu h' hwritten' hq
    exact .inr ⟨new, new', hlook, hlook', htexts hn hnew hnew'⟩

end Runs

/-- When a run that leaves the order of columns alone comes to an end, so does the run that puts
them in the order of their tables, and every node has the same columns in both, up to their order.
If no write fails in either, both leave the same at every place, or texts that are read as
definitions with the same text around their blocks, the same fields in them, and the same columns in
different orders. Directories may have come in the place of files while the warehouse was asked. -/
theorem reordering_keeps_metadata {r : Reconciliation} {meanwhile : FileTree → FileTree}
    {refused : Refusals} {timestamp path : String} {t : FileTree} {m : Merging} (ht : t.top.Proper)
    (hmeanwhile : t.Obstructed (meanwhile t))
    (h : ((r.reordering false).runAmid meanwhile timestamp t path refused).result = .ok m)
    (timestamp' : String) (refused' : Refusals) :
    ∃ m', ((r.reordering true).runAmid meanwhile timestamp' t path refused').result = .ok m' ∧
      (∀ id, (m'.graph.columns id).Perm (m.graph.columns id)) ∧
      ((∀ o ∈ m.report.files ++ m'.report.files,
          o.reason ≠ some DiagnosticCode.writeFailed.name) →
        ∀ q,
          look q ((r.reordering true).runAmid meanwhile timestamp' t path refused').tree.top =
              look q ((r.reordering false).runAmid meanwhile timestamp t path refused).tree.top ∨
            ∃ text text',
              look q ((r.reordering false).runAmid meanwhile timestamp t path refused).tree.top =
                some (some (.text text)) ∧
              look q ((r.reordering true).runAmid meanwhile timestamp' t path refused').tree.top =
                some (some (.text text')) ∧
              TextsPermuted text text') := by
  obtain ⟨p, tables, report, hplan, hmade, hlisted, htree, -, hprogress, hconcluded⟩ :=
    of_runAmid_eq_ok ht h
  -- The plan does not depend on the order of columns, and the datasets are listed as before.
  have hplan' : (r.reordering true).plan t path = .ok p := hplan
  obtain ⟨report', hlisted'⟩ := exists_collectListings hlisted (p.report timestamp')
  obtain ⟨m', hm'⟩ : ∃ m',
      ((r.reordering true).runAmid meanwhile timestamp' t path refused').result = .ok m' :=
    exists_result hplan' hlisted'
  obtain ⟨p', tables', report'', hplan'', hmade', hlisted'', htree', -, hprogress', hconcluded'⟩ :=
    of_runAmid_eq_ok ht hm'
  cases hplan'.symm.trans hplan''
  obtain rfl : tables' = tables :=
    (tables_eq_flatMap hlisted'').trans (tables_eq_flatMap hlisted).symm
  have hread : ∀ id n, p.build.graph.node? id = some n →
      n.content.columns.WellFormedWith Number.Legible :=
    fun id n hn => Definition.wellFormed_columns_of_parse (of_load (hmade.loaded hn)).2
  have hu : t.Obstructed (if p.datasets.isEmpty then t else meanwhile t) := by
    split
    · exact .refl t
    · exact hmeanwhile
  have hwf := hmade.ordering.wellFounded hmade.leavesOutside
  have hsolves := hprogress.solves hmade.ordering
  have hperm := hsolves.perm hwf (hprogress'.solves hmade'.ordering) hread
  refine ⟨m', hm', hperm, fun hwritten q => ?_⟩
  rw [List.forall_mem_append] at hwritten
  rw [htree, htree']
  exact hconcluded.same_or_permuted ht hmade hmade' hu hconcluded' hwritten.1 hwritten.2
    (hsolves.wellFormed hwf hread) hperm q

/-- The second file with its own column first. -/
def sampleKeyFirst : String :=
  "config \x7b\n  \"columns\": \x7b\n    \"id\": \x7b\n      \"description\": \"key\"\n    \x7d,\n" ++
    "    \"at\": \x7b\n      \"description\": \"time\"\n    \x7d\n  \x7d\n\x7d\nselect 1"

/-- The second file with its columns in the order of the table. -/
def sampleTimeFirst : String :=
  "config \x7b\n  \"columns\": \x7b\n    \"at\": \x7b\n      \"description\": \"time\"\n    \x7d,\n" ++
    "    \"id\": \x7b\n      \"description\": \"key\"\n    \x7d\n  \x7d\n\x7d\nselect 1"

/-- The two columns of the second file are written in different orders. -/
theorem reordering_keeps_metadata_sample :
    sampleTree.top.Proper ∧ sampleTree.Obstructed (id sampleTree) ∧
    ∃ m m', ((sample.reordering false).run "now" sampleTree "definitions").result = .ok m ∧
      ((sample.reordering true).run "now" sampleTree "definitions").result = .ok m' ∧
      (∀ o ∈ m.report.files ++ m'.report.files,
        o.reason ≠ some DiagnosticCode.writeFailed.name) ∧
      look ["p", "definitions", "b.sqlx"] m.tree.top = some (some (.text sampleKeyFirst)) ∧
      look ["p", "definitions", "b.sqlx"] m'.tree.top = some (some (.text sampleTimeFirst)) ∧
      TextsPermuted sampleKeyFirst sampleTimeFirst := by
  have hobstructed : sampleTree.Obstructed (id sampleTree) := .refl sampleTree
  obtain ⟨m, hm, hdone⟩ : ∃ m,
      ((sample.reordering false).run "now" sampleTree "definitions").result = .ok m ∧
      decide ((∀ o ∈ m.report.files, o.reason ≠ some DiagnosticCode.writeFailed.name) ∧
        look ["p", "definitions", "b.sqlx"] m.tree.top = some (some (.text sampleKeyFirst))) =
          true := exists_ok_of_any (by decide +kernel)
  obtain ⟨m', hm', hdone'⟩ : ∃ m',
      ((sample.reordering true).run "now" sampleTree "definitions").result = .ok m' ∧
      decide ((∀ o ∈ m'.report.files, o.reason ≠ some DiagnosticCode.writeFailed.name) ∧
        look ["p", "definitions", "b.sqlx"] m'.tree.top = some (some (.text sampleTimeFirst))) =
          true := exists_ok_of_any (by decide +kernel)
  obtain ⟨hwritten, hlook⟩ := of_decide_eq_true hdone
  obtain ⟨hwritten', hlook'⟩ := of_decide_eq_true hdone'
  obtain ⟨-, -, -, -, -, -, htree, -⟩ := of_runAmid_eq_ok proper_sampleTree hm
  obtain ⟨-, -, -, -, -, -, htree', -⟩ := of_runAmid_eq_ok proper_sampleTree hm'
  obtain ⟨m'', hm'', -, hall⟩ :=
    reordering_keeps_metadata proper_sampleTree hobstructed hm "now" _
  cases hm'.symm.trans hm''
  have hfine := List.forall_mem_append.2 ⟨hwritten, hwritten'⟩
  refine ⟨proper_sampleTree, hobstructed, m, m', hm, hm', hfine, hlook, hlook', ?_⟩
  have hplace := hall hfine ["p", "definitions", "b.sqlx"]
  rw [htree, htree', hlook, hlook'] at hplace
  rcases hplace with hsame | ⟨text, text', htext, htext', hpermuted⟩
  · exact absurd hsame (by decide)
  · cases htext
    cases htext'
    exact hpermuted

end Reconciliation

end ColumnMetadata
