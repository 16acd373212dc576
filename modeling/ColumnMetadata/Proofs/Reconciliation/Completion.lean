import ColumnMetadata.Proofs.Definition.Filling
import ColumnMetadata.Proofs.Project.Graph
import ColumnMetadata.Reconciliation.Run

/-!
# Completing the nodes of a graph in memory

What the columns of each node are to become is said by one equation for each node
(`Reconciliation.merged`), in which the columns that the nodes are inherited from stand in their
final form. Completing the requested nodes in an order in which each comes behind those that it
depends on (`Reconciliation.completeNode`) solves these equations
(`Reconciliation.Progress.solves`), and nothing else does (`Reconciliation.Solves.unique`).
-/

namespace ColumnMetadata

/-- A node with other columns. -/
def GraphNode.withColumns (n : GraphNode Definition) (cs : Columns) : GraphNode Definition :=
  { n with content := n.content.withColumns cs }

theorem GraphNode.withColumns_self (n : GraphNode Definition) :
    n.withColumns n.content.columns = n := rfl

namespace DefinitionGraph

variable {g : DefinitionGraph Definition} {id : Nat} {n : GraphNode Definition}

theorem columns_of_node? (h : g.node? id = some n) : g.columns id = n.content.columns := by
  rw [columns, h]
  rfl

theorem columns_of_node?_eq_none (h : g.node? id = none) : g.columns id = [] := by
  rw [columns, h]
  rfl

theorem dependencies_of_node? (h : g.node? id = some n) : g.dependencies id = n.dependencies := by
  rw [dependencies, h]
  rfl

theorem node?_setContent (g : DefinitionGraph Definition) (id j : Nat) (d : Definition) :
    (g.setContent id d).node? j =
      (g.node? j).map fun n => if id = j then { n with content := d } else n := by
  rw [node?, setContent, List.getElem?_modify]
  rfl

end DefinitionGraph

/-! ## One definition -/

namespace RunOptions

variable (o : RunOptions) {cs : Columns} (table : WarehouseTable) {ds : List Columns}

theorem wellFormed_complete {P : Number → Prop} (hcs : cs.WellFormedWith P)
    (hds : ∀ d ∈ ds, d.WellFormedWith P) : (o.complete cs table ds).WellFormedWith P := by
  unfold complete
  dsimp only
  split
  · exact (hcs.fill table hds).reorder table.columnNames
  · exact hcs.fill table hds

/-- Columns that agree with complete ones have all that there is to take from what agrees with their
dependencies. -/
theorem complete_eq_self (hcs : cs.WellFormed) (hds : ∀ d ∈ ds, d.WellFormed) {cs' : Columns}
    (h : (o.complete cs table ds).Agree cs') {ds' : List Columns}
    (hagree : ∀ d' ∈ ds', ∃ d ∈ ds, d.Agree d') : o.complete cs' table ds' = cs' := by
  have hfilled := hcs.fill table hds
  have hgrows : (cs.fill table ds).columns.Grows (o.complete cs table ds) := by
    refine .of_find?_eq fun name => ?_
    unfold complete
    dsimp only
    split
    · exact Columns.find?_reorder hfilled.names table.columnNames name
    · rfl
  have hfields : ∀ f ∈ table.fields, f.name ∈ Entries.keys cs' := by
    intro f hf
    rw [h.keys]
    exact hgrows.mem_keys (Columns.mem_keys_fill cs table ds hf)
  have hcovers : ∀ d' ∈ ds', cs'.Covers d' := by
    intro d' hd'
    obtain ⟨d, hd, hdd'⟩ := hagree d' hd'
    exact ((Columns.covers_fill cs table hd).grows hgrows).agree h hdd'
  have hsame := Columns.fill_columns_eq_self hfields hcovers
  unfold complete at h ⊢
  rw [hsame]
  dsimp only at h ⊢
  split
  · next horder =>
    rw [if_pos horder] at h
    exact h.reorder_eq_self (Columns.reorder_reorder hfilled.names table.columnNames)
  · rfl

end RunOptions

namespace Reconciliation

variable (r : Reconciliation) (tables : List WarehouseTable)

/-! ## The equations -/

/-- What the columns of a node are to become, when those of all nodes are given. A requested node
with a block and a table is enriched from the table, inherits from each dependency in turn, and is
put in the order of the table if that is asked for; any other node keeps its columns. -/
def merged (n : GraphNode Definition) (final : Nat → Columns) : Columns :=
  match n.requested, n.content.block,
    findTable? tables n.action.target.schema n.action.target.name with
  | true, some _, some table =>
    let filled := n.dependencies.foldl (fun cs d => (cs.inherit (final d)).columns)
      (n.content.columns.enrich table).columns
    if r.options.reorderColumns then filled.matchOrder table else filled
  | _, _, _ => n.content.columns

/-- Columns for all nodes that are what they are to become. Where there is no node there are no
columns. -/
def Solves (g : DefinitionGraph Definition) (final : Nat → Columns) : Prop :=
  ∀ id, final id =
    match g.node? id with
    | none => []
    | some n => r.merged tables n final

theorem Solves.eq_merged {r : Reconciliation} {tables : List WarehouseTable}
    {g : DefinitionGraph Definition} {final : Nat → Columns} (h : r.Solves tables g final) {id : Nat}
    {n : GraphNode Definition} (hn : g.node? id = some n) : final id = r.merged tables n final := by
  have hid := h id
  rwa [hn] at hid

theorem merged_congr {n : GraphNode Definition} {final final' : Nat → Columns}
    (h : ∀ d ∈ n.dependencies, final d = final' d) :
    r.merged tables n final = r.merged tables n final' := by
  have hfold : ∀ (ds : List Nat) (cs : Columns), (∀ d ∈ ds, final d = final' d) →
      ds.foldl (fun cs d => (cs.inherit (final d)).columns) cs =
        ds.foldl (fun cs d => (cs.inherit (final' d)).columns) cs := by
    intro ds
    induction ds with
    | nil => exact fun _ _ => rfl
    | cons d ds ih =>
      intro cs hds
      obtain ⟨hd, hds⟩ := List.forall_mem_cons.1 hds
      rw [List.foldl_cons, List.foldl_cons, hd, ih _ hds]
  unfold merged
  split
  · dsimp only
    rw [hfold _ _ h]
  · rfl

/-- There is at most one solution when the dependencies are well founded. -/
theorem Solves.unique {r : Reconciliation} {tables : List WarehouseTable}
    {g : DefinitionGraph Definition} (hwf : WellFounded fun d id => d ∈ g.dependencies id)
    {final final' : Nat → Columns} (h : r.Solves tables g final) (h' : r.Solves tables g final') :
    final = final' := by
  funext id
  induction id using hwf.induction with
  | _ id ih =>
    rw [h id, h' id]
    cases hn : g.node? id with
    | none => rfl
    | some n =>
      refine merged_congr r tables fun d hd => ih d ?_
      rwa [DefinitionGraph.dependencies_of_node? hn]

theorem complete_eq (o : RunOptions) (cs : Columns) (table : WarehouseTable) (ds : List Nat)
    (final : Nat → Columns) :
    o.complete cs table (ds.map final) =
      let filled := ds.foldl (fun cs d => (cs.inherit (final d)).columns) (cs.enrich table).columns
      if o.reorderColumns then filled.matchOrder table else filled := by
  rw [RunOptions.complete, Columns.fill_columns, List.foldl_map]

theorem merged_eq_complete {n : GraphNode Definition} {b : Block} {table : WarehouseTable}
    (hrequested : n.requested = true) (hblock : n.content.block = some b)
    (htable : findTable? tables n.action.target.schema n.action.target.name = some table)
    (final : Nat → Columns) :
    r.merged tables n final =
      r.options.complete n.content.columns table (n.dependencies.map final) := by
  rw [merged, hrequested, hblock, htable, complete_eq]

/-- The solution is well formed if all columns that were read are. -/
theorem Solves.wellFormed {P : Number → Prop} {r : Reconciliation} {tables : List WarehouseTable}
    {g : DefinitionGraph Definition} (hwf : WellFounded fun d id => d ∈ g.dependencies id)
    {final : Nat → Columns} (h : r.Solves tables g final)
    (hread : ∀ id n, g.node? id = some n → n.content.columns.WellFormedWith P) (id : Nat) :
    (final id).WellFormedWith P := by
  induction id using hwf.induction with
  | _ id ih =>
    rw [h id]
    cases hn : g.node? id with
    | none => exact .nil
    | some n =>
      dsimp only
      have hdependencies : ∀ d ∈ n.dependencies.map final, d.WellFormedWith P := by
        refine List.forall_mem_map.2 fun d hd => ih d ?_
        rwa [DefinitionGraph.dependencies_of_node? hn]
      unfold merged
      split
      · rw [← complete_eq]
        exact r.options.wellFormed_complete _ (hread id n hn) hdependencies
      · exact hread id n hn

/-! ## One node -/

/-- The graph with a node completed. -/
def completeNode (g : DefinitionGraph Definition) (id : Nat) : DefinitionGraph Definition :=
  match g.node? id with
  | none => g
  | some n =>
    match n.content.block, findTable? tables n.action.target.schema n.action.target.name with
    | some _, some table =>
      g.setContent id (n.content.withColumns
        (r.options.complete n.content.columns table (n.dependencies.map g.columns)))
    | _, _ => g

theorem node?_completeNode {g : DefinitionGraph Definition} {id : Nat} {n : GraphNode Definition}
    (hn : g.node? id = some n) (hrequested : n.requested = true) (j : Nat) :
    (r.completeNode tables g id).node? j =
      if j = id then some (n.withColumns (r.merged tables n g.columns)) else g.node? j := by
  have hself : g.node? j = if j = id then some (n.withColumns n.content.columns) else g.node? j := by
    by_cases hj : j = id
    · rw [if_pos hj, hj, hn, n.withColumns_self]
    · rw [if_neg hj]
  unfold completeNode merged
  rw [hn, hrequested]
  dsimp only
  cases n.content.block with
  | none => exact hself
  | some b =>
    cases findTable? tables n.action.target.schema n.action.target.name with
    | none => exact hself
    | some table =>
      dsimp only
      rw [DefinitionGraph.node?_setContent, complete_eq]
      by_cases hj : j = id
      · rw [if_pos hj, hj, hn, Option.map_some, if_pos rfl]
        rfl
      · simp [hj, Ne.symm hj]

/-! ## All nodes -/

/-- What holds when some nodes of a graph have been completed: nothing but columns has changed, the
nodes that are still to be completed are as they were, and the completed ones are what they are to
become. -/
structure Progress (g : DefinitionGraph Definition) (done : List Nat)
    (g' : DefinitionGraph Definition) : Prop where
  node? : ∀ id, g'.node? id = (g.node? id).map fun n => n.withColumns (g'.columns id)
  untouched : ∀ id, id ∉ done → g'.columns id = g.columns id
  settled : ∀ id ∈ done, ∀ n, g.node? id = some n →
    g'.columns id = r.merged tables n g'.columns

theorem Progress.start (g : DefinitionGraph Definition) : r.Progress tables g [] g where
  node? id := by
    cases hn : g.node? id with
    | none => rfl
    | some n =>
      rw [Option.map_some, DefinitionGraph.columns_of_node? hn]
      rfl
  untouched _ _ := rfl
  settled := nofun

section Progress

variable {r tables} {g g' : DefinitionGraph Definition} {done : List Nat}
  (h : r.Progress tables g done g')

include h in
theorem Progress.node?_of_not_mem {id : Nat} (hid : id ∉ done) : g'.node? id = g.node? id := by
  rw [h.node?]
  cases hn : g.node? id with
  | none => rfl
  | some n =>
    rw [Option.map_some, h.untouched id hid, DefinitionGraph.columns_of_node? hn,
      n.withColumns_self]

include h in
/-- Completing one more node, when the nodes that it depends on are complete and it is none of those
that the completed ones depend on. -/
theorem Progress.step {id : Nat} {n : GraphNode Definition} (hid : id ∉ done)
    (hn : g.node? id = some n) (hrequested : n.requested = true) (hself : id ∉ n.dependencies)
    (hdone : ∀ j ∈ done, id ∉ g.dependencies j) :
    r.Progress tables g (done ++ [id]) (r.completeNode tables g' id) := by
  have hn' : g'.node? id = some n := (h.node?_of_not_mem hid).trans hn
  have hnode := r.node?_completeNode tables hn' hrequested
  have hcolumns : ∀ j, (r.completeNode tables g' id).columns j =
      if j = id then r.merged tables n g'.columns else g'.columns j := by
    intro j
    rw [DefinitionGraph.columns, hnode]
    split
    · rfl
    · rfl
  have hother : ∀ j, j ≠ id → (r.completeNode tables g' id).columns j = g'.columns j := by
    intro j hj
    rw [hcolumns, if_neg hj]
  refine ⟨fun j => ?_, fun j hj => ?_, fun j hj m hm => ?_⟩
  · rw [hnode, hcolumns]
    by_cases hj : j = id
    · rw [if_pos hj, if_pos hj, hj, hn, Option.map_some]
    · rw [if_neg hj, if_neg hj, h.node?]
  · rw [List.mem_append, List.mem_singleton, not_or] at hj
    rw [hother j hj.2, h.untouched j hj.1]
  · -- No completed node depends on `id`, so the right-hand sides do not see that it has changed.
    have hsame : ∀ d ∈ m.dependencies, g'.columns d = (r.completeNode tables g' id).columns d := by
      intro d hd
      refine (hother d ?_).symm
      rintro rfl
      rcases List.mem_append.1 hj with hj | hj
      · exact hdone j hj (DefinitionGraph.dependencies_of_node? hm ▸ hd)
      · obtain rfl := List.mem_singleton.1 hj
        rw [hn] at hm
        cases hm
        exact hself hd
    rw [← r.merged_congr tables hsame]
    rcases List.mem_append.1 hj with hj | hj
    · rw [hother j fun he => hid (he ▸ hj)]
      exact h.settled j hj m hm
    · obtain rfl := List.mem_singleton.1 hj
      rw [hn] at hm
      cases hm
      rw [hcolumns, if_pos rfl]

variable {ids rest : List Nat} (hids : g.Ordering ids)

include h hids in
/-- Completing the next node of an order. -/
theorem Progress.next {id : Nat} (he : ids = done ++ id :: rest) :
    r.Progress tables g (done ++ [id]) (r.completeNode tables g' id) := by
  have hid : id ∉ done := by
    have hnodup := hids.nodup
    rw [he] at hnodup
    exact fun hmem => (List.nodup_append.1 hnodup).2.2 id hmem id List.mem_cons_self rfl
  have hrequested : id ∈ g.requested :=
    (hids.mem id).1 (he ▸ List.mem_append_right _ List.mem_cons_self)
  obtain ⟨n, hn, hnr⟩ := DefinitionGraph.mem_requested.1 hrequested
  refine h.step hid hn hnr (fun hself => ?_) fun j hj hdep => ?_
  · exact hid (hids.mem_before he (DefinitionGraph.dependencies_of_node? hn ▸ hself) hrequested)
  · obtain ⟨before, after, rfl⟩ := List.append_of_mem hj
    rw [List.append_assoc, List.cons_append] at he
    exact hid (List.mem_append_left _ (hids.mem_before he hdep hrequested))

include h hids in
/-- Completing the rest of an order. -/
theorem Progress.finish (he : ids = done ++ rest) :
    r.Progress tables g ids (rest.foldl (r.completeNode tables) g') := by
  induction rest generalizing done g' with
  | nil =>
    rw [List.append_nil] at he
    exact he ▸ h
  | cons id rest ih => exact ih (h.next hids he) (by rw [he, List.append_assoc]; rfl)

end Progress

variable {r tables}

/-- When all requested nodes are complete, the columns solve the equations. -/
theorem Progress.solves {g g' : DefinitionGraph Definition} {ids : List Nat}
    (hids : g.Ordering ids) (h : r.Progress tables g ids g') : r.Solves tables g g'.columns := by
  intro id
  cases hn : g.node? id with
  | none =>
    have hn' : g'.node? id = none := by rw [h.node?, hn, Option.map_none]
    exact DefinitionGraph.columns_of_node?_eq_none hn'
  | some n =>
    dsimp only
    by_cases hid : id ∈ ids
    · exact h.settled id hid n hn
    · have hrequested : n.requested = false := Bool.eq_false_iff.2 fun hr =>
        hid ((hids.mem id).2 (DefinitionGraph.mem_requested.2 ⟨n, hn, hr⟩))
      rw [h.untouched id hid, DefinitionGraph.columns_of_node? hn, merged, hrequested]

end Reconciliation

end ColumnMetadata
