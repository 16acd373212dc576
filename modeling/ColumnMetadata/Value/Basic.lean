import ColumnMetadata.Entries
import ColumnMetadata.Number.Basic

/-!
# Values

A value of a configuration block or of a JSON text: a tree of objects and arrays over null,
booleans, numbers and strings. Objects keep the order of their keys. Equality of trees is decidable;
`sameValue` is the coarser equality that does not see the order of an object's keys.
-/

namespace ColumnMetadata

/-- A data value. -/
inductive Value where
  | null
  | bool (value : Bool)
  | number (value : Number)
  | string (value : String)
  | array (items : List Value)
  | object (fields : List (String × Value))
deriving Inhabited, Repr

namespace Value

/-! ## Decidable equality -/

mutual

/-- Equality of trees, order of keys included. -/
def decEq : (a b : Value) → Decidable (a = b)
  | null, null => isTrue rfl
  | bool a, bool b => decidable_of_iff (a = b) (by simp)
  | number a, number b => decidable_of_iff (a = b) (by simp)
  | string a, string b => decidable_of_iff (a = b) (by simp)
  | array as, array bs => match decEqItems as bs with
    | isTrue h => isTrue (by rw [h])
    | isFalse h => isFalse (by simpa using h)
  | object fs, object gs => match decEqFields fs gs with
    | isTrue h => isTrue (by rw [h])
    | isFalse h => isFalse (by simpa using h)
  | null, bool _ | null, number _ | null, string _ | null, array _ | null, object _
  | bool _, null | bool _, number _ | bool _, string _ | bool _, array _ | bool _, object _
  | number _, null | number _, bool _ | number _, string _ | number _, array _
  | number _, object _
  | string _, null | string _, bool _ | string _, number _ | string _, array _
  | string _, object _
  | array _, null | array _, bool _ | array _, number _ | array _, string _ | array _, object _
  | object _, null | object _, bool _ | object _, number _ | object _, string _
  | object _, array _ => isFalse (by simp)

def decEqItems : (as bs : List Value) → Decidable (as = bs)
  | [], [] => isTrue rfl
  | [], _ :: _ => isFalse (by simp)
  | _ :: _, [] => isFalse (by simp)
  | a :: as, b :: bs => match decEq a b, decEqItems as bs with
    | isTrue h, isTrue h' => isTrue (by rw [h, h'])
    | isFalse h, _ => isFalse (by simp [h])
    | _, isFalse h => isFalse (by simp [h])

def decEqFields : (fs gs : List (String × Value)) → Decidable (fs = gs)
  | [], [] => isTrue rfl
  | [], _ :: _ => isFalse (by simp)
  | _ :: _, [] => isFalse (by simp)
  | (k, a) :: fs, (l, b) :: gs =>
    if hk : k = l then match decEq a b, decEqFields fs gs with
      | isTrue h, isTrue h' => isTrue (by rw [hk, h, h'])
      | isFalse h, _ => isFalse (by simp [h])
      | _, isFalse h => isFalse (by simp [h])
    else isFalse (by simp [hk])

end

instance : DecidableEq Value := decEq

/-! ## Equality without order -/

mutual

/-- Equality of values that does not see the order of an object's keys. -/
def sameValue : Value → Value → Bool
  | null, null => true
  | bool a, bool b => a == b
  | number a, number b => a.sameValue b
  | string a, string b => a == b
  | array as, array bs => sameItems as bs
  | object fs, object gs => fs.length == gs.length && fieldsWithin fs gs
  | _, _ => false

def sameItems : List Value → List Value → Bool
  | [], [] => true
  | a :: as, b :: bs => sameValue a b && sameItems as bs
  | _, _ => false

/-- Every field is found among the others with an equal value. -/
def fieldsWithin : List (String × Value) → Entries Value → Bool
  | [], _ => true
  | (k, a) :: fs, gs =>
    (match Entries.find? k gs with
    | some b => sameValue a b
    | none => false) && fieldsWithin fs gs

end

/-! ## Accessors -/

def string? : Value → Option String
  | string s => some s
  | _ => none

/-- Whether the value is null or an array, an object or a string without content. -/
def isVacant : Value → Bool
  | null => true
  | array items => items.isEmpty
  | object fields => fields.isEmpty
  | string s => s.isEmpty
  | _ => false

end Value

end ColumnMetadata
