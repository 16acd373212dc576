import ColumnMetadata.Definition.Column
import ColumnMetadata.Warehouse.Table

/-!
# Filling columns

Three steps complete the columns of a definition: columns of the warehouse's table that are missing
are added, then metadata is inherited from the columns of each dependency, and last the columns may
be put in the order of the table. Filling only adds: no column is removed, and no description or tag
list that is there is replaced.
-/

namespace ColumnMetadata

/-- What filling changed, by column name. -/
structure Changes where
  /-- Columns that were not there. -/
  added : List String
  /-- Columns whose empty description was filled. -/
  descriptions : List String
  /-- Columns whose missing tags were filled. -/
  policyTags : List String
deriving DecidableEq, Repr

namespace Changes

def none : Changes := ⟨[], [], []⟩

def isNone (c : Changes) : Bool :=
  c.added.isEmpty && c.descriptions.isEmpty && c.policyTags.isEmpty

def append (a b : Changes) : Changes :=
  ⟨a.added ++ b.added, a.descriptions ++ b.descriptions, a.policyTags ++ b.policyTags⟩

instance : Append Changes := ⟨append⟩

end Changes

namespace Column

def ofField (f : WarehouseField) : Column :=
  { ofDescription (f.description.getD "") with policyTags := f.policyTags }

/-- Whether the description is empty and the other column has one. -/
def lacksDescription (c inherited : Column) : Bool :=
  c.description.isEmpty && !inherited.description.isEmpty

def lacksTags (c inherited : Column) : Bool :=
  c.policyTags.isNone && inherited.policyTags.isSome

/-- The column with what it lacks taken from another one; each part is taken by itself. -/
def fillFrom (c inherited : Column) : Column :=
  { c with
    description := if c.lacksDescription inherited then inherited.description else c.description
    policyTags := if c.lacksTags inherited then inherited.policyTags else c.policyTags }

end Column

/-- Columns, and what filling them changed. -/
structure Filled where
  columns : Columns
  changes : Changes
deriving DecidableEq, Repr

namespace Filled

def start (cs : Columns) : Filled := ⟨cs, .none⟩

/-- Adds a column that is not there, at the end. -/
def add (filled : Filled) (name : String) (c : Column) : Filled :=
  ⟨Entries.insert name c filled.columns,
    { filled.changes with added := filled.changes.added ++ [name] }⟩

/-- Adds a field of the warehouse if there is no column of its name. -/
def addField (filled : Filled) (f : WarehouseField) : Filled :=
  if Entries.contains f.name filled.columns then filled else filled.add f.name (.ofField f)

/-- Fills a column from the one of the same name that a dependency has; one that is not there is
taken over whole. -/
def inheritColumn (filled : Filled) (entry : String × Column) : Filled :=
  let (name, inherited) := entry
  match Entries.find? name filled.columns with
  | none => filled.add name inherited
  | some c =>
    ⟨Entries.insert name (c.fillFrom inherited) filled.columns,
      { filled.changes with
        descriptions := filled.changes.descriptions ++
          if c.lacksDescription inherited then [name] else []
        policyTags := filled.changes.policyTags ++
          if c.lacksTags inherited then [name] else [] }⟩

end Filled

namespace Columns

/-- Adds the fields of a table that are missing. -/
def enrich (cs : Columns) (t : WarehouseTable) : Filled :=
  t.fields.foldl Filled.addField (.start cs)

def inherit (cs dependency : Columns) : Filled :=
  dependency.foldl Filled.inheritColumn (.start cs)

def matchOrder (cs : Columns) (t : WarehouseTable) : Columns :=
  reorder t.columnNames cs

/-- Whether putting the columns in the order of a table moves any of them. -/
def isMovedBy (cs : Columns) (t : WarehouseTable) : Bool :=
  Entries.keys (cs.matchOrder t) != Entries.keys cs

/-- Completes columns from their table and then from the columns of each dependency, in order. -/
def fill (cs : Columns) (t : WarehouseTable) (dependencies : List Columns) : Filled :=
  dependencies.foldl (fun filled d =>
    let next := filled.columns.inherit d
    ⟨next.columns, filled.changes ++ next.changes⟩) (cs.enrich t)

end Columns

end ColumnMetadata
