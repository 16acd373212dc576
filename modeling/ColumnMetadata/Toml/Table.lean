import ColumnMetadata.Entries

/-!
# TOML values and tables

A TOML document is a table. While it is read, a table remembers how it came about, since that
decides whether a later line may still add to it: a table that was only passed through by a header
may be opened by one header of its own, one made by dotted keys only by dotted keys, and an inline
table by nothing.
-/

namespace ColumnMetadata.Toml

/-- How a table came about. -/
inductive Origin where
  /-- A header of its own. -/
  | header
  /-- A header of a table below it. -/
  | passed
  /-- Dotted keys. -/
  | dotted
  /-- Braces. -/
  | inline
deriving DecidableEq, Repr, Inhabited

/-- A TOML value. Dates, times and floats are told apart from the rest but not interpreted. -/
inductive Item where
  | string (value : String)
  | integer (value : Int)
  | bool (value : Bool)
  | float
  | dateTime
  | array (items : List Item)
  | table (origin : Origin) (entries : List (String × Item))
  /-- The tables of repeated headers in double brackets. -/
  | tables (items : List (List (String × Item)))
deriving Inhabited

/-- The entries of a table. -/
abbrev Table := Entries Item

/-- Changes the table that stands at a path below a table. Tables that are missing on the way come
about from the given origin, and on the way through repeated headers the last table counts. Dotted
keys do not pass a table that has a header or braces. -/
def changeAt (dotted : Bool) (change : Origin → Table → Option Table) :
    List String → Origin → Table → Option Table
  | [], origin, t => change origin t
  | key :: path, _, t =>
    match Entries.find? key t with
    | none =>
      let origin := if dotted then Origin.dotted else Origin.passed
      (changeAt dotted change path origin []).map fun below =>
        Entries.insert key (.table origin below) t
    | some (.table origin below) =>
      if dotted ∧ (origin = .header ∨ origin = .inline) then none
      else if origin = .inline then none
      else (changeAt dotted change path origin below).map fun below =>
        Entries.insert key (.table origin below) t
    | some (.tables all) =>
      match all.getLast? with
      | none => none
      | some last => (changeAt dotted change path .header last).map fun below =>
        Entries.insert key (.tables (all.dropLast ++ [below])) t
    | some _ => none

/-- Adds a value under a key that may be dotted. Every part but the last names a table made by
dotted keys, and the last must be new. -/
def assign (key : List String) (v : Item) (origin : Origin) (t : Table) : Option Table :=
  match key.getLast? with
  | none => none
  | some last =>
    let path := key.dropLast
    changeAt true (fun below table =>
      if (path ≠ [] ∧ below ≠ .dotted) ∨ Entries.contains last table then none
      else some (Entries.insert last v table)) path origin t

/-- The table that pairs of keys and values in braces make up. -/
def ofPairs : List (List String × Item) → Table → Option Table
  | [], t => some t
  | (key, v) :: pairs, t => do
    let t ← assign key v .inline t
    ofPairs pairs t

/-! ## Documents -/

/-- A document being read: the table of all finished sections, and the section that lines are added
to, with its path and whether it is one of repeated tables. -/
structure Document where
  root : Table
  path : List String
  repeated : Bool
  section_ : Table

namespace Document

def empty : Document := ⟨[], [], false, []⟩

/-- Puts the section into its place. -/
def finish (d : Document) : Option Table :=
  match d.path.getLast? with
  | none => some d.section_
  | some key =>
    changeAt false (fun _ parent =>
      match Entries.find? key parent, d.repeated with
      | none, false => some (Entries.insert key (.table .header d.section_) parent)
      | none, true => some (Entries.insert key (.tables [d.section_]) parent)
      | some (.tables all), true => some (Entries.insert key (.tables (all ++ [d.section_])) parent)
      | some _, _ => none) d.path.dropLast .header d.root

/-- What a header in single brackets finds under its key: nothing, or a table that was only passed
through, which it takes over. -/
def takeOver (key : String) (parent : Table) : Option Table :=
  match Entries.find? key parent with
  | none => some []
  | some (.table .passed entries) => some entries
  | some _ => none

/-- The table under the parent's path, if the path leads to one. -/
def parentAt (path : List String) (t : Table) : Option Table :=
  match path with
  | [] => some t
  | key :: path =>
    match Entries.find? key t with
    | none => some []
    | some (.table .inline _) => none
    | some (.table _ below) => parentAt path below
    | some (.tables all) => all.getLast?.bind (parentAt path)
    | some _ => none

/-- Opens the section of a header in single brackets. -/
def openTable (d : Document) (path : List String) : Option Document := do
  let root ← d.finish
  let key ← path.getLast?
  let parent ← parentAt path.dropLast root
  let entries ← takeOver key parent
  let root ← changeAt false (fun _ parent => some (Entries.erase key parent))
    path.dropLast .header root
  some ⟨root, path, false, entries⟩

/-- Opens the section of a header in double brackets. -/
def openRepeated (d : Document) (path : List String) : Option Document := do
  let root ← d.finish
  let key ← path.getLast?
  let parent ← parentAt path.dropLast root
  match Entries.find? key parent with
  | none | some (.tables _) => some ⟨root, path, true, []⟩
  | some _ => none

def add (d : Document) (key : List String) (v : Item) : Option Document :=
  (assign key v .header d.section_).map fun t => { d with section_ := t }

end Document

end ColumnMetadata.Toml
