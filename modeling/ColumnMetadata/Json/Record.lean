import ColumnMetadata.Json.Tree

/-!
# Records in JSON

A record is read from an object, by the names of its fields, or from an array, by their order. In an
object a field may come once, under any of its names, and members of other names are passed over
whatever they hold. In an array nothing may follow the last field. A field says for itself what it
means that it is not there.
-/

namespace ColumnMetadata.Json

/-- What a record's text says about one field. -/
inductive Slot where
  /-- The field is there. -/
  | given (tree : Tree)
  /-- The object has no such member. -/
  | omitted
  /-- The array ends in front of the field. -/
  | cut

def Tree.nullable? {α : Type} (read : Tree → Option α) : Tree → Option (Option α)
  | null => some none
  | t => (read t).map some

namespace Slot

def required {α : Type} (read : Tree → Option α) : Slot → Option α
  | given t => read t
  | omitted | cut => none

/-- A field with a value to fall back on. -/
def withDefault {α : Type} (default : α) (read : Tree → Option α) : Slot → Option α
  | given t => read t
  | omitted | cut => some default

/-- A field that an object may leave out, but an array may not. -/
def omittable {α : Type} (read : Tree → Option (Option α)) : Slot → Option (Option α)
  | given t => read t
  | omitted => some none
  | cut => none

/-- A field that may be missing anywhere, or null. -/
def optional {α : Type} (read : Tree → Option α) : Slot → Option (Option α) :=
  withDefault none (Tree.nullable? read)

end Slot

namespace Tree

/-- The member under one of the names, if there is one: fails when there are two. -/
def member? (names : List String) (members : List (Option String × Tree)) : Option Slot :=
  match members.filter fun m => m.1.any fun k => names.contains k with
  | [] => some .omitted
  | [m] => some (.given m.2)
  | _ => none

/-- What a text says about the fields of a record, each given by its names. -/
def record? (fields : List (List String)) : Tree → Option (List Slot)
  | object members =>
    if members.all fun m => m.1.isSome then fields.mapM fun names => member? names members
    else none
  | array items =>
    if items.length ≤ fields.length then
      some (items.map .given ++ List.replicate (fields.length - items.length) .cut)
    else none
  | _ => none

def text? : Tree → Option String
  | string s => s
  | _ => none

def flag? : Tree → Option Bool
  | bool b => some b
  | _ => none

/-- A natural number below a bound. -/
def natural? (bound : Nat) : Tree → Option Nat
  | number (some (.integer i)) => if 0 ≤ i ∧ i < bound then some i.toNat else none
  | _ => none

def list? {α : Type} (read : Tree → Option α) : Tree → Option (List α)
  | array items => items.mapM read
  | _ => none

/-- One of a set of names: the name itself, or an object with null under the name. -/
def choice? {α : Type} (ofName? : String → Option α) : Tree → Option α
  | string s => s.bind ofName?
  | object [(k, null)] => k.bind ofName?
  | _ => none

def entries? (room : Nat) (t : Tree) : Option (Entries Value) :=
  match t with
  | object _ =>
    match toValue? room t with
    | some (.object fields) => some fields
    | _ => none
  | _ => none

end Tree

end ColumnMetadata.Json
