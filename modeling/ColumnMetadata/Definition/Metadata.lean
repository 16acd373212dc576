import ColumnMetadata.Definition.Column
import ColumnMetadata.Value.Printer

/-!
# The content of a configuration block

Of a block's object only the type, the schema and the columns are interpreted. Every other field is
kept as it is and where it is. Columns that a block did not have are written behind its other fields.
-/

namespace ColumnMetadata

/-- What a definition file defines. -/
inductive DefinitionKind where
  | table
  | view
  | incremental
  | declaration
  | assertion
  | test
  | operations
deriving DecidableEq, Repr, Inhabited

namespace DefinitionKind

def name : DefinitionKind → String
  | table => "table"
  | view => "view"
  | incremental => "incremental"
  | declaration => "declaration"
  | assertion => "assertion"
  | test => "test"
  | operations => "operations"

def all : List DefinitionKind :=
  [table, view, incremental, declaration, assertion, test, operations]

def ofName? (s : String) : Option DefinitionKind := all.find? fun k => k.name == s

theorem ofName?_name (k : DefinitionKind) : ofName? k.name = some k := by
  cases k <;> decide

/-- What is said about a name that is no kind's. -/
def unknownMessage (s : String) : String := "unknown type `" ++ s ++ "`"

end DefinitionKind

/-- The content of a configuration block. -/
structure Metadata where
  /-- Every field but the columns, in order. -/
  fields : Entries Value
  /-- The place of the columns among all fields, if the block had any. -/
  columnsAt : Option Nat
  columns : Columns
deriving DecidableEq, Repr, Inhabited

namespace Metadata

def columnsKey : String := "columns"

/-- What a file without a block is taken to say: it defines a table. -/
def emptyTable : Metadata := ⟨[("type", .string DefinitionKind.table.name)], none, []⟩

def ofValue : Value → Except InvalidBlock Metadata
  | .object fields =>
    match Entries.find? columnsKey fields with
    | none => .ok ⟨fields, none, []⟩
    | some v => (Columns.ofValue v).map fun columns =>
      ⟨Entries.erase columnsKey fields, some ((Entries.keys fields).idxOf columnsKey), columns⟩
  | _ => .error .blockNotObject

/-- The place at which the columns are written: where they were, else at the end if there are any
now. -/
def columnsPlace (m : Metadata) : Option Nat :=
  m.columnsAt <|> if m.columns.isEmpty then none else some m.fields.length

/-- The fields with the columns in their place. -/
def toFields (m : Metadata) : Entries Value :=
  match m.columnsPlace with
  | none => m.fields
  | some i => m.fields.take i ++ (columnsKey, Columns.toValue m.columns) :: m.fields.drop i

def toValue (m : Metadata) : Value := .object m.toFields

def kind? (m : Metadata) : Option DefinitionKind := do
  let v ← Entries.find? "type" m.fields
  let s ← v.string?
  DefinitionKind.ofName? s

def schema? (m : Metadata) : Option String := do
  let v ← Entries.find? "schema" m.fields
  v.string?

/-- The text of the block: the keyword, a space and the pretty form. -/
def render (m : Metadata) : List Char :=
  ['c', 'o', 'n', 'f', 'i', 'g', ' '] ++ m.toValue.pretty 0

end Metadata

end ColumnMetadata
