import ColumnMetadata.Proofs.Definition.Meaning
import ColumnMetadata.Proofs.Reconciliation.Rereading

/-!
# Definitions that a run has completed

What a run leaves in the file of a node is the definition that was read, with other columns in its
block (`Definition.Completed`, `Reconciliation.Reread.completed`). What the columns come to depends
only on what the columns of the node and of its dependencies say, and on the table
(`Reconciliation.meaning_merged`).
-/

namespace ColumnMetadata

/-- A definition with other columns in its block: they say what the given ones say. -/
structure Definition.Completed (d : Definition) (cs : Columns) (d' : Definition) : Prop where
  around : (d'.block.map fun b => (b.before, b.after)) = d.block.map fun b => (b.before, b.after)
  fields : d'.metadata.fields = d.metadata.fields
  wellFormed : d'.metadata.WellFormed
  meaning : d'.columns.meaning = cs.meaning

namespace Definition.Completed

variable {d d' : Definition} {cs cs' : Columns}

theorem refl (h : d.metadata.WellFormed) : d.Completed d.columns d := ⟨rfl, rfl, h, rfl⟩

theorem congr (h : d.Completed cs d') (he : cs.meaning = cs'.meaning) : d.Completed cs' d' :=
  { h with meaning := h.meaning.trans he }

theorem written {b : Block} {m : Metadata} (hblock : d.block = some b) (hcs : cs.WellFormed)
    (hagree : (d.withColumns cs).metadata.Agree m) (hwell : m.WellFormed) :
    d.Completed cs (d.written b cs m) where
  around := by
    rw [hblock]
    rfl
  fields := hagree.fields
  wellFormed := hwell
  meaning := hagree.columns.meaning_eq hcs hwell.columns

end Definition.Completed

/-- Definitions with the same text around their blocks, the same fields in them, and equal columns.
-/
structure Definition.Alike (d d' : Definition) : Prop where
  blocks : ∃ b b', d.block = some b ∧ d'.block = some b' ∧ b.before = b'.before ∧ b.after = b'.after
  fields : d.metadata.fields = d'.metadata.fields
  columns : d.columns.Same d'.columns

/-- Two completions of one definition with a block are alike. -/
theorem Definition.Completed.alike {d d₁ d₂ : Definition} {cs : Columns} (h₁ : d.Completed cs d₁)
    (h₂ : d.Completed cs d₂) (hblock : d.block.isSome = true) : d₁.Alike d₂ where
  blocks := by
    obtain ⟨b, hb⟩ := Option.isSome_iff_exists.1 hblock
    have haround₁ := h₁.around
    have haround₂ := h₂.around
    rw [hb, Option.map_some, Option.map_eq_some_iff] at haround₁ haround₂
    obtain ⟨b₁, hb₁, he₁⟩ := haround₁
    obtain ⟨b₂, hb₂, he₂⟩ := haround₂
    obtain ⟨hbefore, hafter⟩ := Prod.mk.inj (he₁.trans he₂.symm)
    exact ⟨b₁, b₂, hb₁, hb₂, hbefore, hafter⟩
  fields := h₁.fields.trans h₂.fields.symm
  columns := Columns.same_of_meaning_eq h₁.wellFormed.columns h₂.wellFormed.columns
    (h₁.meaning.trans h₂.meaning.symm)

/-- Completing columns sees only what they and those of the dependencies say. -/
theorem RunOptions.meaning_complete (o : RunOptions) {cs cs' : Columns}
    (h : cs.meaning = cs'.meaning) (table : WarehouseTable) {ds ds' : List Columns}
    (hds : ds.map Columns.meaning = ds'.map Columns.meaning) :
    (o.complete cs table ds).meaning = (o.complete cs' table ds').meaning := by
  have hfill := Columns.meaning_fill h table hds
  unfold RunOptions.complete
  dsimp only
  split
  · exact Columns.meaning_reorder hfill table.columnNames
  · exact hfill

namespace Reconciliation

open Node (look)

/-- A place that a run has changed is that of a requested node with a block. -/
theorem Concluded.exists_changed {r : Reconciliation} {refused : Refusals} {t : FileTree}
    {path : String} {p : Plan} {tables : List WarehouseTable} {final : Nat → Columns}
    {s : FileTree × Report} {report : Report}
    (h : r.Concluded refused tables p.build.graph final (t, report) p.order s)
    (hmade : p.Made r t path) {q : List String} (hq : look q s.1.top ≠ look q t.top) :
    ∃ id n, p.build.graph.node? id = some n ∧ n.requested = true ∧
      n.content.block.isSome = true ∧
      t.locate (r.configuration.resolve n.action.fileName) = .ok q := by
  obtain ⟨id, hid, ⟨n, hn, hplace⟩, o, -, hstatus, hends⟩ := h.changed q hq
  obtain ⟨m, hm, hrequested⟩ := hmade.exists_node hid
  rw [hn] at hm
  cases hm
  refine ⟨id, n, hn, hrequested, ?_, hplace⟩
  cases hends with
  | updated hn' hrewritten _ _ _ _ =>
    rw [hn] at hn'
    cases hn'
    obtain ⟨b, -, hblock, -, -⟩ := rewritten?_eq_some.1 hrewritten
    rw [hblock]
    rfl
  | _ => cases hstatus

/-- What is loaded again for a node is its definition, completed. -/
theorem Reread.completed {tables : List WarehouseTable} {n : GraphNode Definition} {cs : Columns}
    {d : Definition} (h : Reread tables n cs d) (hn : n.content.metadata.WellFormed)
    (hcs : cs.WellFormed)
    (hkept : (n.requested = true → rewritten? tables n cs = none) → cs = n.content.columns) :
    n.content.Completed cs d := by
  cases h with
  | kept h => exact hkept h ▸ .refl hn
  | written hrequested hblock htable hagree hwell => exact .written hblock hcs hagree hwell

/-- Two nodes of one content come to columns that say the same if their tables are the same and
their dependencies come to columns that say the same. -/
theorem meaning_merged (r : Reconciliation) {tables tables' : List WarehouseTable}
    {n n' : GraphNode Definition} {final final' : Nat → Columns} (hcontent : n'.content = n.content)
    (hrequested : n'.requested = n.requested)
    (htable : findTable? tables' n'.action.target.schema n'.action.target.name =
      findTable? tables n.action.target.schema n.action.target.name)
    (hdependencies : (n'.dependencies.map fun d => (final' d).meaning) =
      n.dependencies.map fun d => (final d).meaning) :
    (r.merged tables' n' final').meaning = (r.merged tables n final).meaning := by
  unfold merged
  rw [hcontent, hrequested, htable]
  split
  · rw [← complete_eq, ← complete_eq]
    refine r.options.meaning_complete rfl _ ?_
    rw [List.map_map, List.map_map]
    exact hdependencies
  · rfl

end Reconciliation

end ColumnMetadata
