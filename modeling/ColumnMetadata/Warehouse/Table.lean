/-!
# Warehouse tables

What a warehouse says about a dataset: its tables with their columns, or why it says nothing.
-/

namespace ColumnMetadata

/-- A column as the warehouse reports it. -/
structure WarehouseField where
  name : String
  description : Option String
  policyTags : Option (List String)
deriving DecidableEq, Repr, Inhabited

/-- A table and its columns in the order of the warehouse. -/
structure WarehouseTable where
  dataset : String
  name : String
  fields : List WarehouseField
deriving DecidableEq, Repr, Inhabited

namespace WarehouseTable

def qualifiedName (t : WarehouseTable) : String := t.dataset ++ "." ++ t.name

def columnNames (t : WarehouseTable) : List String := t.fields.map WarehouseField.name

end WarehouseTable

/-- Why a warehouse gives no answer. -/
inductive FetchError where
  | authentication (text : String)
  | datasetNotFound (name : String)
  | permissionDenied (text : String)
  | query (text : String)
  | invalidResponse (text : String)
  | network (text : String)
  | timeout (dataset : String) (seconds : Nat)
  | configuration (text : String)
deriving DecidableEq, Repr, Inhabited

def FetchError.message : FetchError → String
  | authentication t => "Authentication failed: " ++ t
  | datasetNotFound n => "Dataset not found: " ++ n
  | permissionDenied t => "Permission denied: " ++ t
  | query t => "Query failed: " ++ t
  | invalidResponse t => "Invalid response: " ++ t
  | network t => "Network error: " ++ t
  | timeout d s => "Timed out after " ++ toString s ++ "s listing " ++ d
  | configuration t => "Configuration error: " ++ t

/-- A warehouse, as a run sees it. -/
structure Warehouse where
  /-- The name of the kind of warehouse. -/
  name : String
  /-- The project that a connection is bound to. -/
  connect : Except FetchError String
  /-- The tables of a dataset in a project. -/
  list : String → String → Except FetchError (List WarehouseTable)
  /-- How long each answer takes, in milliseconds. -/
  latency : Nat

/-- A listing under a limit of seconds: an answer that takes as long as the limit or longer comes
too late. An answer that takes no time is always in time. -/
def Warehouse.listWithin (w : Warehouse) (limit : Option Nat) (project dataset : String) :
    Except FetchError (List WarehouseTable) :=
  match limit with
  | none => w.list project dataset
  | some seconds =>
    if 0 < w.latency ∧ seconds * 1000 ≤ w.latency then .error (.timeout dataset seconds)
    else w.list project dataset

end ColumnMetadata
