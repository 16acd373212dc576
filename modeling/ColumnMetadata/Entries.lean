/-!
# Entries under keys, in order

A list of values under text keys that remembers the order in which the keys came. Inserting a key
that is present replaces its value and keeps its place; a new key goes to the end. The laws say what
each operation does to the look-up and to the list of keys, and that inserting keeps the keys
distinct.
-/

namespace ColumnMetadata

/-- Values under keys, in the order of the keys' first occurrence. -/
abbrev Entries (α : Type) := List (String × α)

namespace Entries

variable {α : Type}

def keys (es : Entries α) : List String := es.map Prod.fst

/-- No key occurs twice. -/
def Distinct (es : Entries α) : Prop := (keys es).Nodup

instance (es : Entries α) : Decidable (Distinct es) := inferInstanceAs (Decidable (List.Nodup _))

def find? (k : String) : Entries α → Option α
  | [] => none
  | (k', v) :: es => if k' = k then some v else find? k es

def contains (k : String) (es : Entries α) : Bool := (find? k es).isSome

/-- Puts a value under a key: in the place of the key if it is present, else at the end. -/
def insert (k : String) (v : α) : Entries α → Entries α
  | [] => [(k, v)]
  | (k', v') :: es => if k' = k then (k, v) :: es else (k', v') :: insert k v es

/-- Changes the value under a key, if it is present. -/
def modify (k : String) (f : α → α) : Entries α → Entries α
  | [] => []
  | (k', v) :: es => if k' = k then (k', f v) :: es else (k', v) :: modify k f es

def erase (k : String) : Entries α → Entries α
  | [] => []
  | (k', v) :: es => if k' = k then es else (k', v) :: erase k es

def insertAll (es : Entries α) (pairs : List (String × α)) : Entries α :=
  pairs.foldl (fun es p => insert p.1 p.2 es) es

/-- The entries that a list of pairs leaves: each key in the place of its first pair, with the value
of its last. -/
def ofPairs (pairs : List (String × α)) : Entries α := insertAll [] pairs

/-- Puts an entry in front of the first one whose key does not come before its own. -/
def insertSorted (e : String × α) : Entries α → Entries α
  | [] => [e]
  | f :: es => if e.1 ≤ f.1 then e :: f :: es else f :: insertSorted e es

/-- The entries in the order of their keys. -/
def sorted (es : Entries α) : Entries α := es.foldr insertSorted []

/-! ## Laws -/

@[simp] theorem keys_nil : keys ([] : Entries α) = [] := rfl

@[simp] theorem keys_cons (p : String × α) (es : Entries α) : keys (p :: es) = p.1 :: keys es := rfl

@[simp] theorem keys_append (es fs : Entries α) : keys (es ++ fs) = keys es ++ keys fs := by
  simp [keys]

/-- A key has a value exactly when it is among the keys. -/
theorem find?_isSome {k : String} {es : Entries α} : (find? k es).isSome ↔ k ∈ keys es := by
  induction es with
  | nil => simp [find?]
  | cons p es ih =>
    obtain ⟨k', v⟩ := p
    by_cases h : k' = k
    · simp [find?, h]
    · simp [find?, h, ih, Ne.symm h]

theorem find?_eq_none {k : String} {es : Entries α} : find? k es = none ↔ k ∉ keys es := by
  rw [← find?_isSome, Option.not_isSome_iff_eq_none]

theorem contains_iff {k : String} {es : Entries α} : contains k es = true ↔ k ∈ keys es :=
  find?_isSome

@[simp] theorem find?_insert_self (k : String) (v : α) (es : Entries α) :
    find? k (insert k v es) = some v := by
  induction es with
  | nil => simp [insert, find?]
  | cons p es ih =>
    obtain ⟨k', v'⟩ := p
    by_cases h : k' = k <;> simp [insert, find?, h, ih]

theorem find?_insert_of_ne {k k' : String} (h : k ≠ k') (v : α) (es : Entries α) :
    find? k' (insert k v es) = find? k' es := by
  induction es with
  | nil => simp [insert, find?, h]
  | cons p es ih =>
    obtain ⟨j, w⟩ := p
    by_cases hj : j = k
    · subst hj; simp [insert, find?, h]
    · rw [insert, if_neg hj]
      by_cases hjk : j = k' <;> simp [find?, hjk, ih]

/-- Inserting keeps the keys of a present key and appends a new one. -/
theorem keys_insert (k : String) (v : α) (es : Entries α) :
    keys (insert k v es) = if k ∈ keys es then keys es else keys es ++ [k] := by
  induction es with
  | nil => simp [insert]
  | cons p es ih =>
    obtain ⟨j, w⟩ := p
    by_cases hj : j = k
    · simp [insert, hj]
    · simp only [insert, hj, if_false, keys_cons, ih, List.mem_cons, Ne.symm hj, false_or]
      split <;> simp

theorem Distinct.insert {es : Entries α} (h : Distinct es) (k : String) (v : α) :
    Distinct (insert k v es) := by
  unfold Distinct at *
  rw [keys_insert]
  split
  · exact h
  · next hk =>
    rw [List.nodup_append]
    refine ⟨h, by simp, ?_⟩
    intro a ha b hb hab
    rw [List.mem_singleton] at hb
    exact hk (hb ▸ hab ▸ ha)

theorem Distinct.insertAll {es : Entries α} (h : Distinct es) (pairs : List (String × α)) :
    Distinct (insertAll es pairs) := by
  induction pairs generalizing es with
  | nil => exact h
  | cons p pairs ih => exact ih (h.insert p.1 p.2)

theorem distinct_nil : Distinct ([] : Entries α) := List.nodup_nil

/-- What is built by insertion has distinct keys. -/
theorem distinct_ofPairs (pairs : List (String × α)) : Distinct (ofPairs pairs) :=
  distinct_nil.insertAll pairs

@[simp] theorem keys_modify (k : String) (f : α → α) (es : Entries α) :
    keys (modify k f es) = keys es := by
  induction es with
  | nil => rfl
  | cons p es ih =>
    obtain ⟨j, w⟩ := p
    by_cases hj : j = k <;> simp [modify, hj, ih]

theorem insertSorted_perm (e : String × α) (es : Entries α) : (insertSorted e es).Perm (e :: es) := by
  induction es with
  | nil => exact .refl _
  | cons f es ih =>
    unfold insertSorted
    split
    · exact .refl _
    · exact (ih.cons f).trans (.swap e f es)

/-- Sorting neither loses nor adds an entry. -/
theorem sorted_perm (es : Entries α) : (sorted es).Perm es := by
  induction es with
  | nil => exact .refl _
  | cons e es ih => exact (insertSorted_perm e (sorted es)).trans (ih.cons e)

end Entries

end ColumnMetadata
