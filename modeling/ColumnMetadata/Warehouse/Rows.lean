import ColumnMetadata.Text.Blank
import ColumnMetadata.Text.Search
import ColumnMetadata.Value.Printer
import ColumnMetadata.Warehouse.Table

/-!
# Reading the BigQuery information schema

The query that lists the columns of a dataset, the rows of its answer, and their grouping into
tables. Rows come ordered by table; a table is a run of rows with one table name.
-/

namespace ColumnMetadata.BigQuery

/-- The query for the columns of a dataset. -/
def columnsQuery (project dataset : String) : String :=
  let schema := "`" ++ project ++ "." ++ dataset ++ ".INFORMATION_SCHEMA."
  "\n            SELECT" ++
  "\n                c.table_name," ++
  "\n                c.column_name," ++
  "\n                f.description," ++
  "\n                ARRAY_TO_STRING(f.policy_tags, ',') AS policy_tags" ++
  "\n            FROM " ++ schema ++ "COLUMNS` AS c" ++
  "\n            JOIN " ++ schema ++ "COLUMN_FIELD_PATHS` AS f" ++
  "\n                ON c.table_name = f.table_name AND c.column_name = f.field_path" ++
  "\n            ORDER BY c.table_name, c.ordinal_position" ++
  "\n            "

/-- What a client's error message means for the listing of a dataset. -/
def classifyError (project dataset message : String) : FetchError :=
  let mentions (part : String) := Text.containsText part.toList message.toList
  if mentions "Not found" then .datasetNotFound (project ++ "." ++ dataset)
  else if mentions "Access Denied" || mentions "Permission" then
    .permissionDenied ("Cannot access " ++ project ++ "." ++ dataset ++ ": " ++ message)
  else .query message

/-- Every attempt to connect fails with this error: the client library is not part of this program. -/
def noClient : FetchError :=
  .configuration "BigQuery support not compiled. Rebuild with: cargo build --features bigquery"

/-! ## Rows -/

/-- One row of the answer. -/
structure Row where
  table : String
  column : String
  description : Option String
  policyTags : Option String
deriving DecidableEq, Repr, Inhabited

/-- The text in a cell: absent and null cells have none. -/
def cellText (cells : List (Option Value)) (index : Nat) (name : String) :
    Except FetchError (Option String) :=
  match cells[index]? with
  | none | some none | some (some .null) => .ok none
  | some (some (.string s)) => .ok (some s)
  | some (some v) =>
    .error (.invalidResponse ("Expected a string for " ++ name ++ ", got " ++ v.compactText))

def requiredText (cells : List (Option Value)) (index : Nat) (name : String) :
    Except FetchError String := do
  match ← cellText cells index name with
  | some s => .ok s
  | none => .error (.invalidResponse ("Missing " ++ name ++ " in result row"))

/-- The row in a list of cells, in the order of the query's columns. -/
def Row.ofCells (cells : List (Option Value)) : Except FetchError Row := do
  let table ← requiredText cells 0 "table_name"
  let column ← requiredText cells 1 "column_name"
  let description ← cellText cells 2 "description"
  let policyTags ← cellText cells 3 "policy_tags"
  .ok ⟨table, column, description, policyTags⟩

/-- The tags in a list joined with commas: blanks around a tag and empty tags do not count, and no
tags are none. -/
def splitTags (joined : String) : Option (List String) :=
  let parts := (Text.splitOnChar ',' joined.toList).map Text.trim
  let tags := (parts.filter fun t => !t.isEmpty).map String.ofList
  if tags.isEmpty then none else some tags

/-- The column that a row describes; an empty description counts as none. -/
def Row.field (r : Row) : WarehouseField :=
  ⟨r.column, r.description.filter fun d => !d.isEmpty, r.policyTags.bind splitTags⟩

/-- Adds the field of a row in front of tables read from the rows behind it: to the first table if
it has the same name, else as a table of its own. -/
def addRow (dataset : String) (r : Row) : List WarehouseTable → List WarehouseTable
  | [] => [⟨dataset, r.table, [r.field]⟩]
  | t :: ts =>
    if t.name = r.table then { t with fields := r.field :: t.fields } :: ts
    else ⟨dataset, r.table, [r.field]⟩ :: t :: ts

/-- The tables in a list of rows: one for each run of rows with one table name. -/
def groupRows (dataset : String) (rows : List Row) : List WarehouseTable :=
  rows.foldr (addRow dataset) []

/-! ## Pages -/

/-- What to do after an answer to a query. -/
inductive PageStep where
  /-- The query still runs. -/
  | pending
  /-- More rows stand under a token. -/
  | next (token : String)
  /-- All rows have been read. -/
  | done
deriving DecidableEq, Repr, Inhabited

/-- The step after an answer. Whether the query still runs is asked first. -/
def PageStep.of (jobComplete : Option Bool) (pageToken : Option String) : PageStep :=
  if jobComplete = some false then .pending
  else
    match pageToken with
    | some token => if token.isEmpty then .done else .next token
    | none => .done

end ColumnMetadata.BigQuery
