import ColumnMetadata.Proofs.Entries
import ColumnMetadata.Proofs.Number.Integers
import ColumnMetadata.Value.Basic

/-!
# Values that can be read

What a value has to be so that its printed form is read: its objects have distinct keys and its
containers are not nested too deeply (`Value.Fits`), and the text of each of its numbers is read
(`Number.Legible`). When the texts are read as the numbers themselves (`Number.Rereads`), as those
of integers of 64 bits are, the value is read as itself. With distinct keys an object is the same
value as any other one that has the same under each key (`Value.sameValue_object`), and a value
whose objects all have distinct keys (`Value.Keyed`) is the same value as itself.
-/

namespace ColumnMetadata

/-- The text of a number is read as that number. -/
def Number.Rereads (x : Number) : Prop := Number.read? x.text = some x

/-- The text of a number is read as some number. -/
def Number.Legible (x : Number) : Prop := ∃ y, Number.read? x.text = some y

/-- The number that the text of a number is read as. -/
def Number.reread (x : Number) : Number := (Number.read? x.text).getD x

theorem Number.Legible.read?_text {x : Number} (h : x.Legible) :
    Number.read? x.text = some x.reread := by
  obtain ⟨y, hy⟩ := h
  rw [Number.reread, hy, Option.getD_some]

theorem Number.Rereads.legible {x : Number} (h : x.Rereads) : x.Legible := ⟨x, h⟩

theorem Number.Rereads.reread_eq {x : Number} (h : x.Rereads) : x.reread = x := by
  rw [Number.reread, h, Option.getD_some]

theorem Number.IsInteger.rereads {x : Number} (h : x.IsInteger) : x.Rereads := by
  cases x with
  | integer i => exact Number.read?_integerText h
  | float x => exact absurd h id

/-- A natural number of 64 bits. -/
theorem Number.isInteger_natCast {n : Nat} (h : n < UInt64.size) : (integer n).IsInteger := by
  unfold UInt64.size at h
  exact ⟨by omega, by omega⟩

namespace Value

mutual

/-- The numbers in a value. -/
def numbers : Value → List Number
  | number x => [x]
  | array vs => itemNumbers vs
  | object fs => fieldNumbers fs
  | _ => []

/-- The numbers in items. -/
def itemNumbers : List Value → List Number
  | [] => []
  | v :: vs => numbers v ++ itemNumbers vs

/-- The numbers in fields. -/
def fieldNumbers : List (String × Value) → List Number
  | [] => []
  | (_, v) :: fs => numbers v ++ fieldNumbers fs

end

theorem mem_itemNumbers {x : Number} {vs : List Value} :
    x ∈ itemNumbers vs ↔ ∃ v ∈ vs, x ∈ v.numbers := by
  induction vs with
  | nil => simp [itemNumbers]
  | cons v vs ih => simp [itemNumbers, ih]

theorem mem_fieldNumbers {x : Number} {fs : List (String × Value)} :
    x ∈ fieldNumbers fs ↔ ∃ p ∈ fs, x ∈ p.2.numbers := by
  induction fs with
  | nil => simp [fieldNumbers]
  | cons p fs ih => simp [fieldNumbers, ih]

/-- Items without numbers. -/
theorem itemNumbers_map_eq_nil {α : Type} {print : α → Value} {l : List α}
    (h : ∀ a ∈ l, (print a).numbers = []) : itemNumbers (l.map print) = [] := by
  induction l with
  | nil => rfl
  | cons a l ih =>
    obtain ⟨ha, hl⟩ := List.forall_mem_cons.1 h
    rw [List.map_cons, itemNumbers, ha, ih hl, List.append_nil]

/-- Every number in the value is an integer of 64 bits. -/
def IntegersOnly (v : Value) : Prop := ∀ x ∈ v.numbers, x.IsInteger

instance (v : Value) : Decidable v.IntegersOnly := inferInstanceAs (Decidable (∀ x ∈ _, _))

/-- The keys of each object are distinct, and at most `room` containers stand in each other. -/
inductive Fits : Nat → Value → Prop
  | null {room : Nat} : Fits room null
  | bool {room : Nat} (b : Bool) : Fits room (bool b)
  | number {room : Nat} (x : Number) : Fits room (number x)
  | string {room : Nat} (s : String) : Fits room (string s)
  | array {room : Nat} {vs : List Value} (h : ∀ v ∈ vs, Fits room v) : Fits (room + 1) (array vs)
  | object {room : Nat} {fs : List (String × Value)} (keys : Entries.Distinct fs)
      (h : ∀ p ∈ fs, Fits room p.2) : Fits (room + 1) (object fs)

theorem Fits.exists_items {room : Nat} {vs : List Value} (h : Fits room (.array vs)) :
    ∃ r, room = r + 1 ∧ ∀ v ∈ vs, Fits r v := by
  cases h with
  | array h => exact ⟨_, rfl, h⟩

theorem Fits.exists_fields {room : Nat} {fs : List (String × Value)} (h : Fits room (.object fs)) :
    ∃ r, room = r + 1 ∧ Entries.Distinct fs ∧ ∀ p ∈ fs, Fits r p.2 := by
  cases h with
  | object keys h => exact ⟨_, rfl, keys, h⟩

/-- A value that fits while `room` more containers may be opened, and all of whose numbers are of
one kind. -/
structure Within (P : Number → Prop) (room : Nat) (v : Value) : Prop where
  fits : v.Fits room
  numbers : ∀ x ∈ v.numbers, P x

section Within

variable {P : Number → Prop} {room : Nat}

theorem within_string (s : String) : (string s).Within P room := ⟨.string s, nofun⟩

theorem within_object {fs : List (String × Value)} :
    (object fs).Within P (room + 1) ↔ Entries.Distinct fs ∧ ∀ p ∈ fs, p.2.Within P room := by
  constructor
  · intro h
    obtain ⟨r, hr, hkeys, hfs⟩ := h.fits.exists_fields
    cases hr
    exact ⟨hkeys, fun p hp => ⟨hfs p hp, fun x hx => h.numbers x (mem_fieldNumbers.2 ⟨p, hp, hx⟩)⟩⟩
  · rintro ⟨hkeys, hfs⟩
    refine ⟨.object hkeys fun p hp => (hfs p hp).fits, fun x hx => ?_⟩
    obtain ⟨p, hp, hx⟩ := mem_fieldNumbers.1 hx
    exact (hfs p hp).numbers x hx

theorem within_array {vs : List Value} (h : ∀ v ∈ vs, v.Within P room) :
    (array vs).Within P (room + 1) := by
  refine ⟨.array fun v hv => (h v hv).fits, fun x hx => ?_⟩
  obtain ⟨v, hv, hx⟩ := mem_itemNumbers.1 hx
  exact (h v hv).numbers x hx

end Within

end Value

/-! ## Values that are the same up to the order of keys -/

theorem Number.sameValue_self (x : Number) : x.sameValue x = true := by
  cases x with
  | integer i => simp [sameValue]
  | float x => simp [sameValue, Binary64.sameValue]

namespace Value

theorem sameItems_self {vs : List Value} (h : ∀ v ∈ vs, sameValue v v = true) :
    sameItems vs vs = true := by
  induction vs with
  | nil => simp [sameItems]
  | cons v vs ih =>
    obtain ⟨hv, hvs⟩ := List.forall_mem_cons.1 h
    rw [sameItems, hv, ih hvs, Bool.and_self]

theorem fieldsWithin_of_find? {fs : List (String × Value)} {gs : Entries Value}
    (hself : ∀ p ∈ fs, sameValue p.2 p.2 = true)
    (hfind : ∀ p ∈ fs, Entries.find? p.1 gs = some p.2) : fieldsWithin fs gs = true := by
  induction fs with
  | nil => simp [fieldsWithin]
  | cons p fs ih =>
    obtain ⟨k, v⟩ := p
    obtain ⟨hv, hself⟩ := List.forall_mem_cons.1 hself
    obtain ⟨hk, hfind⟩ := List.forall_mem_cons.1 hfind
    dsimp only at hv hk
    rw [fieldsWithin, hk, ih hself hfind, Bool.and_true]
    exact hv

/-- Objects with the same value under each key, in whatever order. -/
theorem sameValue_object {fs gs : Entries Value} (hfs : Entries.Distinct fs)
    (hgs : Entries.Distinct gs) (hself : ∀ p ∈ fs, sameValue p.2 p.2 = true)
    (h : ∀ k, Entries.find? k fs = Entries.find? k gs) :
    sameValue (.object fs) (.object gs) = true := by
  have hlength := (Entries.perm_of_find?_eq hfs hgs h).length_eq
  have hwithin : fieldsWithin fs gs = true := by
    refine fieldsWithin_of_find? hself fun p hp => ?_
    rw [← h, Entries.find?_of_mem hfs hp]
  rw [sameValue, hlength, hwithin, beq_self_eq_true, Bool.and_self]

/-! ## Distinct keys -/

mutual

/-- The objects in a value, itself included. -/
def objects : Value → List (Entries Value)
  | array vs => itemObjects vs
  | object fs => fs :: fieldObjects fs
  | _ => []

/-- The objects in items. -/
def itemObjects : List Value → List (Entries Value)
  | [] => []
  | v :: vs => objects v ++ itemObjects vs

/-- The objects in fields. -/
def fieldObjects : List (String × Value) → List (Entries Value)
  | [] => []
  | (_, v) :: fs => objects v ++ fieldObjects fs

end

/-- No object in the value has a key twice. -/
def Keyed (v : Value) : Prop := ∀ fs ∈ v.objects, Entries.Distinct fs

instance (v : Value) : Decidable v.Keyed := inferInstanceAs (Decidable (∀ fs ∈ _, _))

theorem mem_itemObjects {fs : Entries Value} {vs : List Value} :
    fs ∈ itemObjects vs ↔ ∃ v ∈ vs, fs ∈ v.objects := by
  induction vs with
  | nil => simp [itemObjects]
  | cons v vs ih => simp [itemObjects, ih]

theorem mem_fieldObjects {fs : Entries Value} {gs : List (String × Value)} :
    fs ∈ fieldObjects gs ↔ ∃ p ∈ gs, fs ∈ p.2.objects := by
  induction gs with
  | nil => simp [fieldObjects]
  | cons p gs ih => simp [fieldObjects, ih]

theorem keyed_array {vs : List Value} : (array vs).Keyed ↔ ∀ v ∈ vs, v.Keyed := by
  unfold Keyed
  rw [objects]
  constructor
  · exact fun h v hv fs hfs => h fs (mem_itemObjects.2 ⟨v, hv, hfs⟩)
  · intro h fs hfs
    obtain ⟨v, hv, hfs⟩ := mem_itemObjects.1 hfs
    exact h v hv fs hfs

theorem keyed_object {gs : List (String × Value)} :
    (object gs).Keyed ↔ Entries.Distinct gs ∧ ∀ p ∈ gs, p.2.Keyed := by
  unfold Keyed
  rw [objects, List.forall_mem_cons]
  refine and_congr_right fun _ => ⟨fun h p hp fs hfs => h fs (mem_fieldObjects.2 ⟨p, hp, hfs⟩), ?_⟩
  intro h fs hfs
  obtain ⟨p, hp, hfs⟩ := mem_fieldObjects.1 hfs
  exact h p hp fs hfs

mutual

theorem Keyed.sameValue_self : ∀ {v : Value}, v.Keyed → sameValue v v = true
  | null, _ => by rw [sameValue]
  | bool b, _ => by rw [sameValue, beq_self_eq_true]
  | number x, _ => by rw [sameValue, Number.sameValue_self]
  | string s, _ => by rw [sameValue, beq_self_eq_true]
  | array vs, h => by rw [sameValue, sameItems_self (sameValue_items_self (keyed_array.1 h))]
  | object fs, h => by
    obtain ⟨hkeys, hfs⟩ := keyed_object.1 h
    exact sameValue_object hkeys hkeys (sameValue_fields_self hfs) fun _ => rfl

theorem sameValue_items_self : ∀ {vs : List Value}, (∀ v ∈ vs, v.Keyed) →
    ∀ v ∈ vs, sameValue v v = true
  | [], _ => List.forall_mem_nil _
  | _ :: _, h => by
    obtain ⟨hv, hvs⟩ := List.forall_mem_cons.1 h
    exact List.forall_mem_cons.2 ⟨hv.sameValue_self, sameValue_items_self hvs⟩

theorem sameValue_fields_self : ∀ {fs : List (String × Value)}, (∀ p ∈ fs, p.2.Keyed) →
    ∀ p ∈ fs, sameValue p.2 p.2 = true
  | [], _ => List.forall_mem_nil _
  | (_, _) :: _, h => by
    obtain ⟨hp, hfs⟩ := List.forall_mem_cons.1 h
    exact List.forall_mem_cons.2 ⟨hp.sameValue_self, sameValue_fields_self hfs⟩

end

theorem Fits.keyed {room : Nat} {v : Value} (h : v.Fits room) : v.Keyed := by
  induction h with
  | array _ ih => exact keyed_array.2 ih
  | object keys _ ih => exact keyed_object.2 ⟨keys, ih⟩
  | _ => exact nofun

theorem Fits.sameValue_self {room : Nat} {v : Value} (h : v.Fits room) : sameValue v v = true :=
  h.keyed.sameValue_self

end Value

end ColumnMetadata
