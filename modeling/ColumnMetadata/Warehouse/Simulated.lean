import ColumnMetadata.Entries
import ColumnMetadata.Warehouse.Table

/-!
# A warehouse in memory

A warehouse that holds its answers: tables under their datasets, errors for datasets, and whether a
connection fails. A dataset that it has never heard of is not found. It counts the listings that it
was asked for.
-/

namespace ColumnMetadata

/-- A warehouse in memory. -/
structure SimulatedWarehouse where
  project : String
  datasets : Entries (List WarehouseTable)
  errors : Entries FetchError
  connectionFails : Bool
  latency : Nat
  /-- The datasets that were listed, in order. -/
  calls : List String

namespace SimulatedWarehouse

def empty (project : String) : SimulatedWarehouse := ⟨project, [], [], false, 0, []⟩

def addTable (w : SimulatedWarehouse) (t : WarehouseTable) : SimulatedWarehouse :=
  let tables := (Entries.find? t.dataset w.datasets).getD []
  { w with datasets := Entries.insert t.dataset (tables ++ [t]) w.datasets }

def addDataset (w : SimulatedWarehouse) (dataset : String) : SimulatedWarehouse :=
  if Entries.contains dataset w.datasets then w
  else { w with datasets := Entries.insert dataset [] w.datasets }

def addError (w : SimulatedWarehouse) (dataset : String) (e : FetchError) : SimulatedWarehouse :=
  { w with errors := Entries.insert dataset e w.errors }

def tableCount (w : SimulatedWarehouse) : Nat :=
  (w.datasets.flatMap fun d => d.2).length

/-- The answer to a listing: a dataset's error goes before its tables. -/
def list (w : SimulatedWarehouse) (project dataset : String) :
    Except FetchError (List WarehouseTable) :=
  match Entries.find? dataset w.errors, Entries.find? dataset w.datasets with
  | some e, _ => .error e
  | none, some tables => .ok tables
  | none, none => .error (.datasetNotFound (project ++ "." ++ dataset))

def connect (w : SimulatedWarehouse) : Except FetchError String :=
  if w.connectionFails then .error (.network "Simulated connection failure") else .ok w.project

def recordCalls (w : SimulatedWarehouse) (datasets : List String) : SimulatedWarehouse :=
  { w with calls := w.calls ++ datasets }

def toWarehouse (w : SimulatedWarehouse) : Warehouse :=
  ⟨"Mock", w.connect, w.list, w.latency⟩

end SimulatedWarehouse

end ColumnMetadata
