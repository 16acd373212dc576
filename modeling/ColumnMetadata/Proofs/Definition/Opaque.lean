import ColumnMetadata.Definition.Metadata
import ColumnMetadata.Proofs.Entries
import ColumnMetadata.Proofs.Value.Numbers

/-!
# Numbers are opaque

What a block says is read and written without a look at its numbers: with other numbers in the
places of a value's own, the same content is read up to these numbers
(`Metadata.ofValue_mapNumbers`), with the same error if there is one, and content with other numbers
is written as the same value up to them (`Metadata.toValue_mapNumbers`).
-/

namespace ColumnMetadata

variable (f : Number → Number)

namespace Column

/-- The column with other numbers under its own keys. -/
def mapNumbers (c : Column) : Column :=
  { c with extra := Entries.mapValues (Value.mapNumbers f) c.extra }

/-! ## Reading an entry -/

theorem descriptionOf?_mapNumbers (name : String) (v : Option Value) :
    descriptionOf? name (v.map (Value.mapNumbers f)) = descriptionOf? name v := by
  cases v with
  | none => rfl
  | some v => cases v <;> rfl

theorem tagsOfItems?_mapItems (name : String) (vs : List Value) :
    tagsOfItems? name (Value.mapItems f vs) = tagsOfItems? name vs := by
  induction vs with
  | nil => rfl
  | cons v vs ih =>
    cases v with
    | string t => rw [Value.mapItems, Value.mapNumbers, tagsOfItems?, tagsOfItems?, ih]
    | _ => rfl

theorem tagsOf?_mapNumbers (name : String) (v : Option Value) :
    tagsOf? name (v.map (Value.mapNumbers f)) = tagsOf? name v := by
  cases v with
  | none => rfl
  | some v =>
    cases v with
    | array vs =>
      rw [Option.map_some, Value.mapNumbers, tagsOf?, tagsOf?, tagsOfItems?_mapItems]
    | _ => rfl

theorem ofValue_mapNumbers (name : String) (v : Value) :
    Column.ofValue name (v.mapNumbers f) = (Column.ofValue name v).map (mapNumbers f) := by
  cases v with
  | object fs =>
    rw [Value.mapNumbers, Value.mapFields_eq, Column.ofValue, Column.ofValue,
      Entries.find?_mapValues, Entries.find?_mapValues, descriptionOf?_mapNumbers,
      tagsOf?_mapNumbers, ← Entries.mapValues_erase, ← Entries.mapValues_erase,
      Entries.keys_mapValues]
    cases descriptionOf? name (Entries.find? descriptionKey fs) with
    | error e => rfl
    | ok description => cases tagsOf? name (Entries.find? tagsKey fs) <;> rfl
  | _ => rfl

/-! ## Writing an entry -/

section Written

variable (c : Column)

/-- The tags have no numbers. -/
theorem tagsValue_map : c.tagsValue.map (Value.mapNumbers f) = c.tagsValue := by
  have hstrings (tags : List String) :
      Value.mapItems f (tags.map .string) = tags.map .string := by
    rw [Value.mapItems_eq, List.map_map]
    rfl
  unfold tagsValue
  cases c.policyTags with
  | none => rfl
  | some tags => rw [Option.map_some, Option.map_some, Value.mapNumbers, hstrings]

theorem slot_mapNumbers (k : String) :
    (c.mapNumbers f).slot k = (c.slot k).map (Value.mapNumbers f) := by
  unfold slot
  split
  · rfl
  · split
    · exact (tagsValue_map f c).symm
    · exact Entries.find?_mapValues ..

theorem leading_mapNumbers :
    (c.mapNumbers f).leading = Entries.mapValues (Value.mapNumbers f) c.leading := by
  have htags : (c.tagsValue.map fun v => (tagsKey, v)).toList =
      Entries.mapValues (Value.mapNumbers f) (c.tagsValue.map fun v => (tagsKey, v)).toList := by
    conv => lhs; rw [← tagsValue_map f c]
    cases c.tagsValue <;> rfl
  have hvalue : (c.mapNumbers f).tagsValue = c.tagsValue := rfl
  unfold leading
  rw [hvalue, Entries.mapValues, List.map_append]
  refine congrArg₂ _ ?_ ?_
  · change (if descriptionKey ∉ c.layout ∧ c.description ≠ "" then _ else _) = _
    split <;> rfl
  · change (if tagsKey ∉ c.layout then _ else _) = _
    split
    · exact htags
    · rfl

theorem placed_mapNumbers :
    (c.mapNumbers f).placed = Entries.mapValues (Value.mapNumbers f) c.placed := by
  unfold placed Entries.mapValues
  rw [List.map_filterMap]
  refine List.filterMap_congr fun k _ => ?_
  rw [slot_mapNumbers]
  cases c.slot k <;> rfl

theorem toFields_mapNumbers :
    (c.mapNumbers f).toFields = Entries.mapValues (Value.mapNumbers f) c.toFields := by
  have hextra : (c.mapNumbers f).extra = Entries.mapValues (Value.mapNumbers f) c.extra := rfl
  unfold toFields
  dsimp only
  rw [leading_mapNumbers, placed_mapNumbers, hextra, ← Entries.mapValues_append,
    Entries.mapValues_append _ (_ ++ _),
    Entries.mapValues_filter _ fun k => !Entries.contains k (c.leading ++ c.placed)]
  simp only [Entries.contains_mapValues]

theorem toValue_mapNumbers : (c.mapNumbers f).toValue = c.toValue.mapNumbers f := by
  rw [toValue, toValue, Value.mapNumbers, Value.mapFields_eq, toFields_mapNumbers]

end Written

end Column

namespace Columns

def mapNumbers (cs : Columns) : Columns := Entries.mapValues (Column.mapNumbers f) cs

theorem ofFields_mapFields (fs : Entries Value) :
    ofFields (Value.mapFields f fs) = (ofFields fs).map (mapNumbers f) := by
  induction fs with
  | nil => rfl
  | cons p fs ih =>
    rw [Value.mapFields, ofFields, ofFields, Column.ofValue_mapNumbers, ih]
    cases Column.ofValue p.1 p.2 with
    | error e => rfl
    | ok c => cases ofFields fs <;> rfl

theorem ofValue_mapNumbers (v : Value) :
    Columns.ofValue (v.mapNumbers f) = (Columns.ofValue v).map (mapNumbers f) := by
  cases v with
  | object fs => exact ofFields_mapFields f fs
  | _ => rfl

theorem toValue_mapNumbers (cs : Columns) :
    (cs.mapNumbers f).toValue = cs.toValue.mapNumbers f := by
  rw [toValue, toValue, Value.mapNumbers, Value.mapFields_eq, mapNumbers, Entries.mapValues,
    Entries.mapValues, List.map_map, List.map_map]
  refine congrArg _ (List.map_congr_left fun p _ => ?_)
  exact congrArg (Prod.mk p.1) (Column.toValue_mapNumbers f p.2)

end Columns

namespace Metadata

/-- The content with other numbers in its fields and columns. -/
def mapNumbers (m : Metadata) : Metadata :=
  { m with
    fields := Entries.mapValues (Value.mapNumbers f) m.fields
    columns := m.columns.mapNumbers f }

/-- Other numbers in a value are other numbers in the content that it describes. -/
theorem ofValue_mapNumbers (v : Value) :
    Metadata.ofValue (v.mapNumbers f) = (Metadata.ofValue v).map (mapNumbers f) := by
  cases v with
  | object fs =>
    rw [Value.mapNumbers, Value.mapFields_eq, Metadata.ofValue, Metadata.ofValue,
      Entries.find?_mapValues, ← Entries.mapValues_erase, Entries.keys_mapValues]
    cases Entries.find? columnsKey fs with
    | none => rfl
    | some w =>
      dsimp only [Option.map_some]
      rw [Columns.ofValue_mapNumbers]
      cases Columns.ofValue w <;> rfl
  | _ => rfl

theorem toFields_mapNumbers (m : Metadata) :
    (m.mapNumbers f).toFields = Entries.mapValues (Value.mapNumbers f) m.toFields := by
  have hplace : (m.mapNumbers f).columnsPlace = m.columnsPlace := by
    unfold columnsPlace mapNumbers Columns.mapNumbers Entries.mapValues
    simp
  unfold toFields
  rw [hplace]
  split
  · rfl
  · rw [mapNumbers, Columns.toValue_mapNumbers]
    simp [Entries.mapValues]

/-- Content with other numbers is written as the value with these numbers. -/
theorem toValue_mapNumbers (m : Metadata) : (m.mapNumbers f).toValue = m.toValue.mapNumbers f := by
  rw [toValue, toValue, Value.mapNumbers, Value.mapFields_eq, toFields_mapNumbers]

end Metadata

end ColumnMetadata
