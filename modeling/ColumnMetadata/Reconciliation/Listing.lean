import ColumnMetadata.Reconciliation.Basic
import ColumnMetadata.Report.Basic

/-!
# Listing the warehouse

The tables of the datasets that a run needs. The datasets are asked for in groups, so that no more
listings are under way at once than the configuration allows; every dataset is asked for, once and in
order (`flatten_inGroups`), also behind one that fails. A dataset that does not exist is warned
about, and its tables are missing; any other failure ends the run, and of several the first counts.
-/

namespace ColumnMetadata

/-- The table of a dataset with a name among listed tables; the one listed last counts. -/
def findTable? (tables : List WarehouseTable) (dataset name : String) : Option WarehouseTable :=
  (tables.filter fun t => t.dataset == dataset && t.name == name).getLast?

/-- What the answers to listings come to: the tables, and a report with the datasets that do not
exist. -/
def collectListings (report : Report) :
    List (String × Except FetchError (List WarehouseTable)) →
      Except RunError (List WarehouseTable × Report)
  | [] => .ok ([], report)
  | (_, .ok listed) :: answers => do
    let (tables, report) ← collectListings report answers
    .ok (listed ++ tables, report)
  | (_, .error (.datasetNotFound name)) :: answers =>
    collectListings
      (report.addDiagnostic
        ⟨.datasetNotFound, .warn, "Dataset " ++ name ++ " not found", none⟩) answers
  | (dataset, .error cause) :: _ => .error (.listing dataset cause)

/-- A list cut into groups of one more than a number; the last group may be smaller. -/
def inGroups {α : Type} (more : Nat) : List α → List (List α)
  | [] => []
  | x :: xs => (x :: xs.take more) :: inGroups more (xs.drop more)
termination_by xs => xs.length
decreasing_by
  simp only [List.length_drop, List.length_cons]
  omega

/-- The groups put together are the list. -/
@[simp] theorem flatten_inGroups {α : Type} (more : Nat) (xs : List α) :
    (inGroups more xs).flatten = xs := by
  induction xs using inGroups.induct more with
  | case1 => simp [inGroups]
  | case2 x xs ih => rw [inGroups, List.flatten_cons, ih, List.cons_append, List.take_append_drop]

/-- What the warehouse answers when it is asked for datasets of a project. A limit of none at once
is taken for one. -/
def Reconciliation.ask (r : Reconciliation) (project : String) (datasets : List String) :
    List (String × Except FetchError (List WarehouseTable)) :=
  (inGroups (r.configuration.warehouse.maxConcurrentFetches - 1) datasets).flatMap fun group =>
    group.map fun d => (d, r.warehouse.listWithin r.configuration.warehouse.timeout project d)

end ColumnMetadata
