import ColumnMetadata.Proofs.Value.Shape
import ColumnMetadata.Value.Printer

/-!
# Values with other numbers

A value with another number in the place of each of its own (`Value.mapNumbers`) has the same shape,
and its pretty form is the same when the texts of the numbers are (`Value.pretty_mapNumbers`).
-/

namespace ColumnMetadata.Value

variable (f : Number → Number)

mutual

/-- The value with other numbers in the places of its own. -/
def mapNumbers : Value → Value
  | null => null
  | bool b => bool b
  | number x => number (f x)
  | string s => string s
  | array vs => array (mapItems vs)
  | object fs => object (mapFields fs)

def mapItems : List Value → List Value
  | [] => []
  | v :: vs => mapNumbers v :: mapItems vs

def mapFields : List (String × Value) → List (String × Value)
  | [] => []
  | (k, v) :: fs => (k, mapNumbers v) :: mapFields fs

end

theorem mapItems_eq (vs : List Value) : mapItems f vs = vs.map (mapNumbers f) := by
  induction vs with
  | nil => rfl
  | cons v vs ih => rw [mapItems, List.map_cons, ih]

theorem mapFields_eq (fs : List (String × Value)) :
    mapFields f fs = Entries.mapValues (mapNumbers f) fs := by
  induction fs with
  | nil => rfl
  | cons p fs ih => rw [mapFields, Entries.mapValues_cons, ih]

mutual

theorem numbers_mapNumbers : ∀ v : Value, (v.mapNumbers f).numbers = v.numbers.map f
  | null | bool _ | number _ | string _ => rfl
  | array vs => itemNumbers_mapItems vs
  | object fs => fieldNumbers_mapFields fs

theorem itemNumbers_mapItems : ∀ vs : List Value,
    itemNumbers (mapItems f vs) = (itemNumbers vs).map f
  | [] => rfl
  | v :: vs => by
    rw [mapItems, itemNumbers, itemNumbers, numbers_mapNumbers v, itemNumbers_mapItems vs,
      List.map_append]

theorem fieldNumbers_mapFields : ∀ fs : List (String × Value),
    fieldNumbers (mapFields f fs) = (fieldNumbers fs).map f
  | [] => rfl
  | (_, v) :: fs => by
    rw [mapFields, fieldNumbers, fieldNumbers, numbers_mapNumbers v, fieldNumbers_mapFields fs,
      List.map_append]

end

/-- Other numbers nest no deeper and leave the keys alone. -/
theorem Fits.mapNumbers {room : Nat} {v : Value} (h : v.Fits room) :
    (v.mapNumbers f).Fits room := by
  induction h with
  | null => exact .null
  | bool b => exact .bool b
  | number x => exact .number (f x)
  | string s => exact .string s
  | array _ ih =>
    rw [Value.mapNumbers, mapItems_eq]
    exact .array (List.forall_mem_map.2 ih)
  | object keys _ ih =>
    rw [Value.mapNumbers, mapFields_eq]
    refine .object ?_ (List.forall_mem_map.2 ih)
    rw [Entries.Distinct, Entries.keys_mapValues]
    exact keys

variable {f}

mutual

theorem mapNumbers_eq_self : ∀ {v : Value}, (∀ x ∈ v.numbers, f x = x) → v.mapNumbers f = v
  | null, _ | bool _, _ | string _, _ => rfl
  | number x, h => congrArg number (h x List.mem_cons_self)
  | array _, h => congrArg array (mapItems_eq_self h)
  | object _, h => congrArg object (mapFields_eq_self h)

theorem mapItems_eq_self : ∀ {vs : List Value}, (∀ x ∈ itemNumbers vs, f x = x) →
    mapItems f vs = vs
  | [], _ => rfl
  | v :: vs, h => by
    obtain ⟨hv, hvs⟩ := List.forall_mem_append.1 h
    rw [mapItems, mapNumbers_eq_self hv, mapItems_eq_self hvs]

theorem mapFields_eq_self : ∀ {fs : List (String × Value)}, (∀ x ∈ fieldNumbers fs, f x = x) →
    mapFields f fs = fs
  | [], _ => rfl
  | (_, v) :: fs, h => by
    obtain ⟨hv, hfs⟩ := List.forall_mem_append.1 h
    rw [mapFields, mapNumbers_eq_self hv, mapFields_eq_self hfs]

end

mutual

/-- The pretty form shows nothing of a number but its text. -/
theorem pretty_mapNumbers : ∀ {v : Value} (level : Nat),
    (∀ x ∈ v.numbers, (f x).text = x.text) → (v.mapNumbers f).pretty level = v.pretty level
  | null, _, _ | bool _, _, _ | string _, _, _ => rfl
  | number x, _, h => h x List.mem_cons_self
  | array [], _, _ | object [], _, _ => rfl
  | array (v :: vs), level, h => by
    obtain ⟨hv, hvs⟩ := List.forall_mem_append.1 h
    rw [mapNumbers, mapItems, pretty, pretty, pretty_mapNumbers (level + 1) hv,
      prettyItems_mapItems (level + 1) hvs]
  | object ((k, v) :: fs), level, h => by
    obtain ⟨hv, hfs⟩ := List.forall_mem_append.1 h
    rw [mapNumbers, mapFields, pretty, pretty, pretty_mapNumbers (level + 1) hv,
      prettyFields_mapFields (level + 1) hfs]

theorem prettyItems_mapItems : ∀ {vs : List Value} (level : Nat),
    (∀ x ∈ itemNumbers vs, (f x).text = x.text) →
      prettyItems level (mapItems f vs) = prettyItems level vs
  | [], _, _ => rfl
  | v :: vs, level, h => by
    obtain ⟨hv, hvs⟩ := List.forall_mem_append.1 h
    rw [mapItems, prettyItems, prettyItems, pretty_mapNumbers level hv,
      prettyItems_mapItems level hvs]

theorem prettyFields_mapFields : ∀ {fs : List (String × Value)} (level : Nat),
    (∀ x ∈ fieldNumbers fs, (f x).text = x.text) →
      prettyFields level (mapFields f fs) = prettyFields level fs
  | [], _, _ => rfl
  | (k, v) :: fs, level, h => by
    obtain ⟨hv, hfs⟩ := List.forall_mem_append.1 h
    rw [mapFields, prettyFields, prettyFields, pretty_mapNumbers level hv,
      prettyFields_mapFields level hfs]

end

end ColumnMetadata.Value
