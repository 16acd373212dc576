import ColumnMetadata.Proofs.Reconciliation.Completion

/-!
# Merging is completing and then concluding

A run completes a node in memory and deals with its file before it goes on to the next node. What it
does to the tree and to the report depends only on what the columns of the node are in the end, so
it comes to the same to complete all nodes first and then to deal with their files in the same order
(`Reconciliation.mergeAll_eq`). In particular it does not matter to the columns of any node whether
a file could be written.
-/

namespace ColumnMetadata.Reconciliation

variable (r : Reconciliation) (refused : Refusals) (tables : List WarehouseTable)

/-- What writing the text of a file does to the tree and to the report. -/
def writeFile (file old new : String) (s : FileTree × Report) : FileTree × Report :=
  if new = old then (s.1, s.2.addOutcome ⟨file, .unchanged, none⟩)
  else
    match s.1.replaceText refused (r.configuration.resolve file) new with
    | .ok tree => (tree, s.2.addOutcome ⟨file, .updated, none⟩)
    | .error cause => (s.1, s.2.fail .writeFailed file ("Failed to write: " ++ cause.message))

theorem write_eq (m : Merging) (file old new : String) :
    r.write refused m file old new =
      let s := r.writeFile refused file old new (m.tree, m.report)
      ⟨s.1, m.graph, s.2⟩ := by
  unfold write writeFile
  split
  · rfl
  · cases m.tree.replaceText refused (r.configuration.resolve file) new <;> rfl

/-- What is done to the tree and to the report for a node whose columns are complete. -/
def conclude (n : GraphNode Definition) (cs : Columns) (s : FileTree × Report) :
    FileTree × Report :=
  let file := n.action.fileName
  let target := n.action.target
  match n.content.block, findTable? tables target.schema target.name with
  | none, _ =>
    (s.1, s.2.skip .configBlockMissing file "No config block found; file left unchanged")
  | some _, none =>
    (s.1, s.2.skip .warehouseTableMissing file ("No BigQuery table found for " ++ target.text))
  | some b, some _ =>
    r.writeFile refused file n.content.text
      (String.ofList (b.replace (n.content.withColumns cs).metadata.render)) s

/-- What is done for the node in a place of a graph. -/
def concludeNode (g : DefinitionGraph Definition) (final : Nat → Columns) (s : FileTree × Report)
    (id : Nat) : FileTree × Report :=
  match g.node? id with
  | none => s
  | some n => r.conclude refused tables n (final id) s

/-- Merging a node is completing it in memory and concluding with the columns that it has then. -/
theorem mergeNode_eq {m : Merging} {id : Nat} {n : GraphNode Definition}
    (hn : m.graph.node? id = some n) (hrequested : n.requested = true) :
    r.mergeNode refused tables m id =
      let s := r.conclude refused tables n (r.merged tables n m.graph.columns) (m.tree, m.report)
      ⟨s.1, r.completeNode tables m.graph id, s.2⟩ := by
  unfold mergeNode conclude completeNode
  rw [hn]
  dsimp only
  cases hblock : n.content.block with
  | none => rfl
  | some b =>
    cases htable : findTable? tables n.action.target.schema n.action.target.name with
    | none => rfl
    | some table =>
      dsimp only
      rw [merged_eq_complete r tables hrequested hblock htable, write_eq]
      rfl

theorem columns_completeNode_of_ne (g : DefinitionGraph Definition) {id j : Nat} (h : j ≠ id) :
    (r.completeNode tables g id).columns j = g.columns j := by
  unfold completeNode
  split
  · rfl
  · split
    · rw [DefinitionGraph.columns, DefinitionGraph.node?_setContent]
      simp only [if_neg (Ne.symm h), Option.map_id_fun', id_eq]
      rfl
    · rfl

theorem columns_foldl_completeNode {ids : List Nat} (g : DefinitionGraph Definition) {j : Nat}
    (h : j ∉ ids) : (ids.foldl (r.completeNode tables) g).columns j = g.columns j := by
  induction ids generalizing g with
  | nil => rfl
  | cons id ids ih =>
    rw [List.mem_cons, not_or] at h
    rw [List.foldl_cons, ih _ h.2, r.columns_completeNode_of_ne tables g h.1]

/-- Merging the rest of an order is completing all of it in memory and then concluding for one node
after the other. -/
theorem mergeAll_eq_of_progress {g : DefinitionGraph Definition} {ids : List Nat}
    (hids : g.Ordering ids) {done rest : List Nat} (he : ids = done ++ rest) {m : Merging}
    (h : r.Progress tables g done m.graph) :
    r.mergeAll refused tables m rest =
      let final := rest.foldl (r.completeNode tables) m.graph
      let s := rest.foldl (r.concludeNode refused tables g final.columns) (m.tree, m.report)
      ⟨s.1, final, s.2⟩ := by
  induction rest generalizing done m with
  | nil => rfl
  | cons id rest ih =>
    have hnodup := hids.nodup
    rw [he] at hnodup
    obtain ⟨-, hrest, hdisjoint⟩ := List.nodup_append.1 hnodup
    have hid : id ∉ done := fun hmem => hdisjoint id hmem id List.mem_cons_self rfl
    obtain ⟨n, hn, hrequested⟩ := DefinitionGraph.mem_requested.1
      ((hids.mem id).1 (he ▸ List.mem_append_right _ List.mem_cons_self))
    have hn' := (h.node?_of_not_mem hid).trans hn
    have hcolumns : (rest.foldl (r.completeNode tables) (r.completeNode tables m.graph id)).columns
        id = r.merged tables n m.graph.columns := by
      rw [r.columns_foldl_completeNode tables _ (List.nodup_cons.1 hrest).1, DefinitionGraph.columns,
        r.node?_completeNode tables hn' hrequested, if_pos rfl]
      rfl
    have hnext := h.next hids he
    have he' : ids = done ++ [id] ++ rest := by rw [he, List.append_assoc]; rfl
    have hstep := ih he' (m := r.mergeNode refused tables m id)
      (by rw [r.mergeNode_eq refused tables hn' hrequested]; exact hnext)
    rw [r.mergeNode_eq refused tables hn' hrequested] at hstep
    rw [mergeAll, List.foldl_cons, r.mergeNode_eq refused tables hn' hrequested]
    rw [mergeAll] at hstep
    rw [hstep]
    dsimp only
    rw [List.foldl_cons, List.foldl_cons, concludeNode, hn]
    dsimp only
    rw [hcolumns]

/-- Merging all nodes of an order. -/
theorem mergeAll_eq {g : DefinitionGraph Definition} {ids : List Nat} (hids : g.Ordering ids)
    (t : FileTree) (report : Report) :
    r.mergeAll refused tables ⟨t, g, report⟩ ids =
      let final := ids.foldl (r.completeNode tables) g
      let s := ids.foldl (r.concludeNode refused tables g final.columns) (t, report)
      ⟨s.1, final, s.2⟩ :=
  r.mergeAll_eq_of_progress refused tables hids (List.nil_append ids).symm (.start r tables g)

end ColumnMetadata.Reconciliation
