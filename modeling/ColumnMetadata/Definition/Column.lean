import ColumnMetadata.Value.Basic

/-!
# Columns

The metadata of a column: a description, a list of policy tags, and any other keys its entry had. An
entry is written as an object with its keys where they were. A bare string is short for an entry with
just a description, and a single tag for a list of one.
-/

namespace ColumnMetadata

/-- Why a block's object does not describe a definition. -/
inductive InvalidBlock where
  | blockNotObject
  | columnsNotObject
  | columnNotRecord (name : String)
  | descriptionNotString (name : String)
  | tagNotString (name : String)
  | tagsNotList (name : String)
deriving DecidableEq, Repr, Inhabited

def InvalidBlock.message : InvalidBlock → String
  | blockNotObject => "config block must be an object"
  | columnsNotObject => "`columns` must be an object"
  | columnNotRecord n => "column `" ++ n ++ "` must be a string or an object"
  | descriptionNotString n => "column `" ++ n ++ "`: description must be a string"
  | tagNotString n => "column `" ++ n ++ "`: bigqueryPolicyTags must contain strings"
  | tagsNotList n =>
    "column `" ++ n ++ "`: bigqueryPolicyTags must be a string or a list of strings"

/-- The metadata of one column. -/
structure Column where
  /-- The description; empty when the column has none. -/
  description : String
  /-- The policy tags in their order; an empty list is not the same as none. -/
  policyTags : Option (List String)
  /-- The other keys of the entry. Their order is not written, since the layout has it. -/
  extra : Entries Value
  /-- The keys of the entry in the order in which it had them. -/
  layout : List String
deriving DecidableEq, Repr, Inhabited

namespace Column

def descriptionKey : String := "description"

def tagsKey : String := "bigqueryPolicyTags"

def ofDescription (description : String) : Column :=
  ⟨description, none, [], [descriptionKey]⟩

/-- Equality of metadata: the order of keys does not count. -/
def same (a b : Column) : Bool :=
  a.description == b.description && a.policyTags == b.policyTags &&
    Value.sameValue (.object a.extra) (.object b.extra)

/-! ## Reading an entry -/

def tagsOfItems? (name : String) : List Value → Except InvalidBlock (List String)
  | [] => .ok []
  | .string t :: vs => (tagsOfItems? name vs).map (t :: ·)
  | _ :: _ => .error (.tagNotString name)

/-- The description under its key: absent and null are empty. -/
def descriptionOf? (name : String) : Option Value → Except InvalidBlock String
  | none | some .null => .ok ""
  | some (.string s) => .ok s
  | some _ => .error (.descriptionNotString name)

/-- The policy tags under their key: absent and null are none, a string is a list of one. -/
def tagsOf? (name : String) : Option Value → Except InvalidBlock (Option (List String))
  | none | some .null => .ok none
  | some (.string t) => .ok (some [t])
  | some (.array vs) => (tagsOfItems? name vs).map some
  | some _ => .error (.tagsNotList name)

/-- The column that an entry under a name describes. -/
def ofValue (name : String) : Value → Except InvalidBlock Column
  | .string description => .ok (ofDescription description)
  | .object fields => do
    let description ← descriptionOf? name (Entries.find? descriptionKey fields)
    let policyTags ← tagsOf? name (Entries.find? tagsKey fields)
    .ok ⟨description, policyTags, Entries.erase tagsKey (Entries.erase descriptionKey fields),
      Entries.keys fields⟩
  | _ => .error (.columnNotRecord name)

/-! ## Writing an entry -/

def tagsValue (c : Column) : Option Value :=
  c.policyTags.map fun tags => .array (tags.map .string)

/-- What is written under a key of the layout, if anything. -/
def slot (c : Column) (key : String) : Option Value :=
  if key = descriptionKey then some (.string c.description)
  else if key = tagsKey then c.tagsValue
  else Entries.find? key c.extra

/-- The entries written in front: a description and tags that the entry did not have before. -/
def leading (c : Column) : Entries Value :=
  (if descriptionKey ∉ c.layout ∧ c.description ≠ "" then
    [(descriptionKey, .string c.description)] else []) ++
  (if tagsKey ∉ c.layout then (c.tagsValue.map fun v => (tagsKey, v)).toList else [])

/-- The entries in the places that they had. -/
def placed (c : Column) : Entries Value :=
  c.layout.filterMap fun key => (c.slot key).map fun v => (key, v)

/-- The entry: what is new in front, what was there in its place, and last the keys that were added
to the others. -/
def toFields (c : Column) : Entries Value :=
  let written := c.leading ++ c.placed
  written ++ c.extra.filter fun p => !Entries.contains p.1 written

def toValue (c : Column) : Value := .object c.toFields

end Column

/-- Columns under their names, in the order of declaration. -/
abbrev Columns := Entries Column

namespace Columns

/-- The columns that the entries of an object describe. -/
def ofFields : Entries Value → Except InvalidBlock Columns
  | [] => .ok []
  | (name, v) :: fs => do
    let c ← Column.ofValue name v
    let cs ← ofFields fs
    .ok ((name, c) :: cs)

def ofValue : Value → Except InvalidBlock Columns
  | .object fields => ofFields fields
  | _ => .error .columnsNotObject

def toValue (cs : Columns) : Value := .object (cs.map fun (name, c) => (name, c.toValue))

/-- Moves the named columns to the front, in the order of the names; names without a column are
passed over, and the other columns keep their order. -/
def reorder : List String → Columns → Columns
  | [], cs => cs
  | name :: names, cs =>
    match Entries.find? name cs with
    | some c => (name, c) :: reorder names (Entries.erase name cs)
    | none => reorder names cs

end Columns

end ColumnMetadata
