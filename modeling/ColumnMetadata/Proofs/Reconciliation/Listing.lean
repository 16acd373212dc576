import ColumnMetadata.Proofs.Basic
import ColumnMetadata.Proofs.Entries
import ColumnMetadata.Reconciliation.Listing
import ColumnMetadata.Warehouse.Simulated

/-!
# The tables that a run knows

A run knows the tables of all its datasets exactly when each of them is listed or does not exist
(`collectListings_eq_ok_iff`). When listings give tables of their own dataset only, which table
stands under a name depends on the listing of one dataset (`findTable?_of_collectListings`), so two
runs that ask for the dataset know the same table.
-/

namespace ColumnMetadata

/-- The tables in an answer. A dataset that does not exist has none, and any other failure is no
answer. -/
def listed? : Except FetchError (List WarehouseTable) → Option (List WarehouseTable)
  | .ok tables => some tables
  | .error (.datasetNotFound _) => some []
  | .error _ => none

/-- The listings come to an end when all datasets are answered for, and to all tables in order. -/
theorem collectListings_eq_ok_iff {report : Report}
    {answers : List (String × Except FetchError (List WarehouseTable))}
    {tables : List WarehouseTable} :
    (∃ report', collectListings report answers = .ok (tables, report')) ↔
      (∀ a ∈ answers, (listed? a.2).isSome = true) ∧
        tables = answers.flatMap fun a => (listed? a.2).getD [] := by
  induction answers generalizing report tables with
  | nil =>
    constructor
    · rintro ⟨_, ⟨⟩⟩
      exact ⟨nofun, rfl⟩
    · rintro ⟨-, rfl⟩
      exact ⟨report, rfl⟩
  | cons a answers ih =>
    obtain ⟨dataset, e | listed⟩ := a
    · cases e with
      | datasetNotFound name =>
        rw [collectListings, ih]
        simp [listed?]
      | _ => simp [collectListings, listed?]
    · constructor
      · rintro ⟨report', h⟩
        obtain ⟨⟨rest, report''⟩, hrest, h⟩ := bind_eq_ok.1 h
        cases h
        obtain ⟨hall, rfl⟩ := ih.1 ⟨_, hrest⟩
        exact ⟨List.forall_mem_cons.2 ⟨rfl, hall⟩, rfl⟩
      · rintro ⟨hall, rfl⟩
        obtain ⟨report', hrest⟩ := ih.2 ⟨(List.forall_mem_cons.1 hall).2, rfl⟩
        exact ⟨report', bind_eq_ok.2 ⟨(_, report'), hrest, rfl⟩⟩

/-- The tables that are listed do not depend on the report. -/
theorem exists_collectListings {report report' : Report}
    {answers : List (String × Except FetchError (List WarehouseTable))}
    {tables : List WarehouseTable} (h : collectListings report answers = .ok (tables, report'))
    (other : Report) : ∃ other', collectListings other answers = .ok (tables, other') :=
  collectListings_eq_ok_iff.2 (collectListings_eq_ok_iff.1 ⟨report', h⟩)

/-- Among tables by dataset, the table of a dataset is found among those of the dataset. -/
theorem findTable?_flatMap {tablesOf : String → List WarehouseTable}
    (hown : ∀ d, ∀ t ∈ tablesOf d, t.dataset = d) {datasets : List String}
    (hnodup : datasets.Nodup) {dataset : String} (hd : dataset ∈ datasets) (name : String) :
    findTable? (datasets.flatMap tablesOf) dataset name =
      findTable? (tablesOf dataset) dataset name := by
  have hother : ∀ ds : List String, dataset ∉ ds → (ds.flatMap tablesOf).filter
      (fun t => t.dataset == dataset && t.name == name) = [] := by
    intro ds hds
    refine List.filter_eq_nil_iff.2 fun t ht => ?_
    obtain ⟨d, hmem, ht⟩ := List.mem_flatMap.1 ht
    have hne : t.dataset ≠ dataset := fun he => hds (he ▸ hown d t ht ▸ hmem)
    simp [hne]
  obtain ⟨before, after, rfl⟩ := List.append_of_mem hd
  obtain ⟨-, hafter, hdisjoint⟩ := List.nodup_append.1 hnodup
  have hbefore : dataset ∉ before := fun hmem =>
    hdisjoint dataset hmem dataset List.mem_cons_self rfl
  rw [findTable?, findTable?, List.flatMap_append, List.flatMap_cons, List.filter_append,
    List.filter_append, hother before hbefore, hother after (List.nodup_cons.1 hafter).1,
    List.nil_append, List.append_nil]

/-- A warehouse that gives tables of the dataset that it is asked for. -/
def Warehouse.OwnTables (w : Warehouse) : Prop :=
  ∀ project dataset tables, w.list project dataset = .ok tables →
    ∀ t ∈ tables, t.dataset = dataset

/-- A warehouse in memory gives tables of their own dataset if it holds them under it. -/
theorem SimulatedWarehouse.ownTables {w : SimulatedWarehouse}
    (h : ∀ e ∈ w.datasets, ∀ t ∈ e.2, t.dataset = e.1) : w.toWarehouse.OwnTables := by
  intro project dataset tables hlist
  change w.list project dataset = .ok tables at hlist
  unfold SimulatedWarehouse.list at hlist
  split at hlist
  · cases hlist
  · next hfind =>
    cases hlist
    exact h _ (Entries.mem_of_find? hfind)
  · cases hlist

theorem Warehouse.list_of_listWithin {w : Warehouse} {limit : Option Nat} {project dataset : String}
    {tables : List WarehouseTable} (h : w.listWithin limit project dataset = .ok tables) :
    w.list project dataset = .ok tables := by
  unfold listWithin at h
  split at h
  · exact h
  · split at h
    · cases h
    · exact h

namespace Reconciliation

variable (r : Reconciliation)

/-- Every dataset is asked for, in order. -/
theorem ask_eq (project : String) (datasets : List String) :
    r.ask project datasets = datasets.map fun d =>
      (d, r.warehouse.listWithin r.configuration.warehouse.timeout project d) := by
  rw [ask, List.flatMap_def, ← List.map_flatten, flatten_inGroups]

theorem map_fst_ask (project : String) (datasets : List String) :
    (r.ask project datasets).map Prod.fst = datasets := by
  rw [ask_eq, List.map_map]
  exact List.map_id datasets

/-- The tables that are listed for a dataset. -/
def tablesOf (project dataset : String) : List WarehouseTable :=
  (listed? (r.warehouse.listWithin r.configuration.warehouse.timeout project dataset)).getD []

variable {r} {project : String} {datasets : List String} {report report' : Report}
  {tables : List WarehouseTable}
  (h : collectListings report (r.ask project datasets) = .ok (tables, report'))

include h in
theorem tables_eq_flatMap : tables = datasets.flatMap (r.tablesOf project) := by
  obtain ⟨-, htables⟩ := collectListings_eq_ok_iff.1 ⟨report', h⟩
  rw [htables, ask_eq, List.flatMap_map]
  rfl

include h in
/-- What is listed together with other datasets is listed without them. -/
theorem exists_collectListings_of_subset {some : List String} (hsub : ∀ d ∈ some, d ∈ datasets)
    (other : Report) : ∃ tables' other',
      collectListings other (r.ask project some) = .ok (tables', other') := by
  obtain ⟨hall, -⟩ := collectListings_eq_ok_iff.1 ⟨report', h⟩
  rw [ask_eq] at hall ⊢
  refine ⟨_, collectListings_eq_ok_iff.2 ⟨fun a ha => ?_, rfl⟩⟩
  obtain ⟨d, hd, rfl⟩ := List.mem_map.1 ha
  exact hall _ (List.mem_map_of_mem (hsub d hd))

include h in
/-- Which table stands under a name depends on the listing of its dataset. -/
theorem findTable?_of_collectListings (hown : r.warehouse.OwnTables) (hnodup : datasets.Nodup)
    {dataset : String} (hd : dataset ∈ datasets) (name : String) :
    findTable? tables dataset name = findTable? (r.tablesOf project dataset) dataset name := by
  rw [tables_eq_flatMap h]
  refine findTable?_flatMap (fun d t ht => ?_) hnodup hd name
  unfold tablesOf at ht
  cases hlisted : r.warehouse.listWithin r.configuration.warehouse.timeout project d with
  | ok listed =>
    rw [hlisted] at ht
    exact hown project d listed (Warehouse.list_of_listWithin hlisted) t ht
  | error e =>
    rw [hlisted] at ht
    cases e <;> cases ht

end Reconciliation

end ColumnMetadata
