import Mathlib.Data.List.Induction
import Mathlib.Data.List.Nodup
import ColumnMetadata.Entries

/-!
# Looking up, removing and appending entries

What removing a key leaves, where a key with its value stands, that inserting new keys appends them
and present ones keep their places, what is left of a list of pairs with repeated keys (`Collects`),
that the values may be changed before or after, and what stands where after some values are changed
and others dropped (`filterMapValues`).
-/

namespace ColumnMetadata.Entries

variable {α : Type}

theorem mem_keys {k : String} {es : Entries α} : k ∈ keys es ↔ ∃ v, (k, v) ∈ es := by
  simp [keys]

/-- What is found under a key stands among the entries. -/
theorem mem_of_find? {k : String} {v : α} {es : Entries α} (h : find? k es = some v) :
    (k, v) ∈ es := by
  induction es with
  | nil => simp [find?] at h
  | cons p es ih =>
    obtain ⟨j, w⟩ := p
    unfold find? at h
    split at h
    · next hj =>
      cases h
      subst hj
      exact List.mem_cons_self
    · exact List.mem_cons_of_mem _ (ih h)

/-- With distinct keys, an entry is found under its key. -/
theorem find?_of_mem {k : String} {v : α} {es : Entries α} (hes : Distinct es) (h : (k, v) ∈ es) :
    find? k es = some v := by
  induction es with
  | nil => simp at h
  | cons p es ih =>
    obtain ⟨j, w⟩ := p
    obtain ⟨hj, hes⟩ := List.nodup_cons.1 hes
    rcases List.mem_cons.1 h with he | h
    · cases he
      simp [find?]
    · have hne : j ≠ k := by
        rintro rfl
        exact hj (mem_keys.2 ⟨v, h⟩)
      rw [find?, if_neg hne, ih hes h]

theorem find?_eq_some_iff {k : String} {v : α} {es : Entries α} (hes : Distinct es) :
    find? k es = some v ↔ (k, v) ∈ es :=
  ⟨mem_of_find?, find?_of_mem hes⟩

theorem find?_append (k : String) (es fs : Entries α) :
    find? k (es ++ fs) = (find? k es).or (find? k fs) := by
  induction es with
  | nil => simp [find?]
  | cons p es ih =>
    obtain ⟨j, w⟩ := p
    by_cases hj : j = k <;> simp [find?, hj, ih]

/-- A new key goes to the end. -/
theorem insert_of_not_mem {k : String} {es : Entries α} (h : k ∉ keys es) (v : α) :
    insert k v es = es ++ [(k, v)] := by
  induction es with
  | nil => rfl
  | cons p es ih =>
    obtain ⟨j, w⟩ := p
    rw [keys_cons, List.mem_cons, not_or] at h
    rw [insert, if_neg (Ne.symm h.1), ih h.2, List.cons_append]

theorem distinct_singleton (p : String × α) : Distinct [p] :=
  List.nodup_cons.2 ⟨nofun, List.nodup_nil⟩

theorem distinct_append {es fs : Entries α} :
    Distinct (es ++ fs) ↔ Distinct es ∧ Distinct fs ∧ ∀ k ∈ keys es, k ∉ keys fs := by
  rw [Distinct, keys_append, List.nodup_append]
  refine and_congr_right fun _ => and_congr_right fun _ => ⟨fun h k hk hk' => h k hk k hk' rfl, ?_⟩
  rintro h k hk _ hk' rfl
  exact h k hk hk'

/-- A key does not occur in front of its entry. -/
theorem not_mem_keys_of_distinct {k : String} {v : α} {es fs : Entries α}
    (h : Distinct (es ++ (k, v) :: fs)) : k ∉ keys es :=
  fun hk => (distinct_append.1 h).2.2 k hk List.mem_cons_self

/-- Putting the value under a key that is there already changes nothing. -/
theorem insert_eq_self {k : String} {v : α} {es : Entries α} (h : find? k es = some v) :
    insert k v es = es := by
  induction es with
  | nil => simp [find?] at h
  | cons p es ih =>
    obtain ⟨j, w⟩ := p
    by_cases hj : j = k
    · simp only [find?, hj, if_true, Option.some.injEq] at h
      simp [insert, hj, h]
    · rw [find?, if_neg hj] at h
      rw [insert, if_neg hj, ih h]

/-- Each entry behind an insertion is the new one or one that was there. -/
theorem mem_insert {k : String} {v : α} {es : Entries α} {p : String × α}
    (h : p ∈ insert k v es) : p = (k, v) ∨ p ∈ es := by
  induction es with
  | nil => exact .inl (List.mem_singleton.1 h)
  | cons q es ih =>
    obtain ⟨j, w⟩ := q
    unfold insert at h
    split at h
    · rcases List.mem_cons.1 h with rfl | h
      · exact .inl rfl
      · exact .inr (List.mem_cons_of_mem _ h)
    · rcases List.mem_cons.1 h with rfl | h
      · exact .inr List.mem_cons_self
      · exact (ih h).imp_right (List.mem_cons_of_mem _)

/-- Each entry behind several insertions is one of the new ones or one that was there. -/
theorem mem_insertAll {es : Entries α} {pairs : List (String × α)} {p : String × α}
    (h : p ∈ insertAll es pairs) : p ∈ es ∨ p ∈ pairs := by
  induction pairs generalizing es with
  | nil => exact .inl h
  | cons q pairs ih =>
    rcases ih h with h | h
    · rcases mem_insert h with rfl | h
      · exact .inr List.mem_cons_self
      · exact .inl h
    · exact .inr (List.mem_cons_of_mem _ h)

/-- A key keeps its place when another value is put under it. -/
theorem insert_append_cons {k : String} {es : Entries α} (h : k ∉ keys es) (v w : α)
    (fs : Entries α) : insert k w (es ++ (k, v) :: fs) = es ++ (k, w) :: fs := by
  induction es with
  | nil => rw [List.nil_append, List.nil_append, insert, if_pos rfl]
  | cons p es ih =>
    obtain ⟨j, u⟩ := p
    rw [keys_cons, List.mem_cons, not_or] at h
    rw [List.cons_append, insert, if_neg (Ne.symm h.1), ih h.2, List.cons_append]

/-- Behind several insertions the last value of a key counts. -/
theorem find?_insertAll (k : String) (es : Entries α) (pairs : List (String × α)) :
    find? k (insertAll es pairs) = (find? k pairs.reverse).or (find? k es) := by
  induction pairs generalizing es with
  | nil => rfl
  | cons p pairs ih =>
    rw [insertAll, List.foldl_cons, ← insertAll, ih, List.reverse_cons, find?_append,
      Option.or_assoc]
    congr 1
    by_cases hp : p.1 = k
    · rw [← hp, find?_insert_self, find?, if_pos rfl, Option.some_or]
    · rw [find?_insert_of_ne hp, find?, if_neg hp, find?, Option.none_or]

/-! ## Changing a value -/

theorem modify_of_find?_eq_none {k : String} {es : Entries α} (h : find? k es = none)
    (f : α → α) : modify k f es = es := by
  induction es with
  | nil => rfl
  | cons p es ih =>
    obtain ⟨j, v⟩ := p
    by_cases hj : j = k
    · rw [find?, if_pos hj] at h
      cases h
    · rw [find?, if_neg hj] at h
      rw [modify, if_neg hj, ih h]

/-- A value that is there is replaced by what becomes of it. -/
theorem modify_of_find?_eq_some {k : String} {v : α} {es : Entries α} (h : find? k es = some v)
    (f : α → α) : modify k f es = insert k (f v) es := by
  induction es with
  | nil => cases h
  | cons p es ih =>
    obtain ⟨j, w⟩ := p
    by_cases hj : j = k
    · rw [find?, if_pos hj] at h
      cases h
      rw [modify, if_pos hj, insert, if_pos hj, hj]
    · rw [find?, if_neg hj] at h
      rw [modify, if_neg hj, insert, if_neg hj, ih h]

/-! ## Removing a key -/

theorem erase_sublist (k : String) (es : Entries α) : (erase k es).Sublist es := by
  induction es with
  | nil => exact .slnil
  | cons p es ih =>
    obtain ⟨j, w⟩ := p
    unfold erase
    split
    · exact .cons _ (.refl es)
    · exact .cons_cons _ ih

theorem Distinct.sublist {es fs : Entries α} (h : Distinct fs) (hs : es.Sublist fs) :
    Distinct es :=
  List.Nodup.sublist (hs.map Prod.fst) h

theorem Distinct.erase {es : Entries α} (h : Distinct es) (k : String) : Distinct (erase k es) :=
  h.sublist (erase_sublist k es)

theorem mem_of_mem_erase {k : String} {es : Entries α} {p : String × α} (h : p ∈ erase k es) :
    p ∈ es :=
  (erase_sublist k es).subset h

/-- A removed key is gone. -/
theorem not_mem_keys_erase {k : String} {es : Entries α} (h : Distinct es) :
    k ∉ keys (erase k es) := by
  induction es with
  | nil => simp [erase]
  | cons p es ih =>
    obtain ⟨j, w⟩ := p
    obtain ⟨hj, hes⟩ := List.nodup_cons.1 h
    unfold erase
    split
    · next he => exact he ▸ hj
    · next he =>
      rw [keys_cons, List.mem_cons, not_or]
      exact ⟨Ne.symm he, ih hes⟩

theorem find?_erase_of_ne {k k' : String} (h : k ≠ k') (es : Entries α) :
    find? k' (erase k es) = find? k' es := by
  induction es with
  | nil => rfl
  | cons p es ih =>
    obtain ⟨j, w⟩ := p
    by_cases hj : j = k
    · simp [erase, find?, hj, h]
    · rw [erase, if_neg hj]
      by_cases hjk : j = k' <;> simp [find?, hjk, ih]

/-- Removing a key that stands between others closes the gap. -/
theorem erase_append_cons {k : String} {es : Entries α} (h : k ∉ keys es) (v : α)
    (fs : Entries α) : erase k (es ++ (k, v) :: fs) = es ++ fs := by
  induction es with
  | nil => simp [erase]
  | cons p es ih =>
    obtain ⟨j, w⟩ := p
    rw [keys_cons, List.mem_cons, not_or] at h
    rw [List.cons_append, erase, if_neg (Ne.symm h.1), ih h.2, List.cons_append]

/-- With distinct keys there is one entry to remove. -/
theorem erase_eq_filter {es : Entries α} (h : Distinct es) (k : String) :
    erase k es = es.filter fun e => e.1 != k := by
  induction es with
  | nil => rfl
  | cons e es ih =>
    obtain ⟨j, v⟩ := e
    obtain ⟨hj, hes⟩ := List.nodup_cons.1 h
    by_cases hjk : j = k
    · subst hjk
      have hall : (es.filter fun e => e.1 != j) = es := List.filter_eq_self.2 fun e he => by
        rw [bne_iff_ne]
        rintro rfl
        exact hj (mem_keys.2 ⟨e.2, he⟩)
      rw [erase, if_pos rfl, List.filter_cons_of_neg (by simp), hall]
    · rw [erase, if_neg hjk, ih hes, List.filter_cons_of_pos (by simpa using hjk)]

/-- An entry that is found stands behind entries with other keys. -/
theorem exists_append_of_find? {k : String} {v : α} {es : Entries α} (h : find? k es = some v) :
    ∃ before after, es = before ++ (k, v) :: after ∧ k ∉ keys before := by
  induction es with
  | nil => cases h
  | cons e es ih =>
    obtain ⟨j, w⟩ := e
    by_cases hj : j = k
    · rw [find?, if_pos hj] at h
      cases h
      exact ⟨[], es, by rw [hj, List.nil_append], List.not_mem_nil⟩
    · rw [find?, if_neg hj] at h
      obtain ⟨before, after, rfl, hbefore⟩ := ih h
      refine ⟨(j, w) :: before, after, rfl, ?_⟩
      rw [keys_cons, List.mem_cons, not_or]
      exact ⟨Ne.symm hj, hbefore⟩

/-- The entries without a key and the entry itself are all entries. -/
theorem perm_cons_erase {k : String} {v : α} {es : Entries α} (h : find? k es = some v) :
    es.Perm ((k, v) :: erase k es) := by
  induction es with
  | nil => simp [find?] at h
  | cons p es ih =>
    obtain ⟨j, w⟩ := p
    by_cases hj : j = k
    · simp only [find?, hj, if_true, Option.some.injEq] at h
      simp [erase, hj, h]
    · rw [find?, if_neg hj] at h
      rw [erase, if_neg hj]
      exact ((ih h).cons _).trans (.swap ..)

theorem find?_of_perm {es fs : Entries α} (hes : Distinct es) (h : fs.Perm es) (k : String) :
    find? k fs = find? k es := by
  have hfs : Distinct fs := ((h.map Prod.fst).nodup_iff).2 hes
  refine Option.ext fun v => ?_
  rw [find?_eq_some_iff hfs, find?_eq_some_iff hes, h.mem_iff]

/-- With distinct keys, entries with the same under each key are the same up to order. -/
theorem perm_of_find?_eq {es fs : Entries α} (hes : Distinct es) (hfs : Distinct fs)
    (h : ∀ k, find? k es = find? k fs) : es.Perm fs := by
  refine (List.perm_ext_iff_of_nodup (List.Nodup.of_map _ hes) (List.Nodup.of_map _ hfs)).2 ?_
  rintro ⟨k, v⟩
  rw [← find?_eq_some_iff hes, ← find?_eq_some_iff hfs, h]

/-- Entries with the same distinct keys in the same order and the same values under them are the
same. -/
theorem ext_of_find? {es fs : Entries α} (hes : Distinct es) (hkeys : keys es = keys fs)
    (h : ∀ k ∈ keys es, find? k es = find? k fs) : es = fs := by
  induction es generalizing fs with
  | nil => exact (List.map_eq_nil_iff.1 hkeys.symm).symm
  | cons p es ih =>
    obtain ⟨j, v⟩ := p
    cases fs with
    | nil => cases hkeys
    | cons q fs =>
      obtain ⟨j', w⟩ := q
      simp only [keys_cons, List.cons.injEq] at hkeys
      obtain ⟨rfl, hkeys⟩ := hkeys
      obtain ⟨hj, hes⟩ := List.nodup_cons.1 hes
      have hv := h j List.mem_cons_self
      simp only [find?, if_true, Option.some.injEq] at hv
      rw [hv, ih hes hkeys fun k hk => ?_]
      have hne : j ≠ k := by
        rintro rfl
        exact hj hk
      have hk' := h k (List.mem_cons_of_mem _ hk)
      rwa [find?, if_neg hne, find?, if_neg hne] at hk'

/-! ## All values under a key -/

/-- The values under a key, in order, however often it occurs. -/
def valuesOf (k : String) (es : Entries α) : List α :=
  es.filterMap fun e => if e.1 = k then some e.2 else none

theorem valuesOf_cons_self (k : String) (v : α) (es : Entries α) :
    valuesOf k ((k, v) :: es) = v :: valuesOf k es :=
  List.filterMap_cons_some (if_pos rfl)

theorem valuesOf_cons_of_ne {j k : String} (h : j ≠ k) (v : α) (es : Entries α) :
    valuesOf k ((j, v) :: es) = valuesOf k es :=
  List.filterMap_cons_none (if_neg h)

/-- With distinct keys there is at most one. -/
theorem valuesOf_eq {es : Entries α} (h : Distinct es) (k : String) :
    valuesOf k es = (find? k es).toList := by
  induction es with
  | nil => rfl
  | cons e es ih =>
    obtain ⟨j, v⟩ := e
    obtain ⟨hj, hes⟩ := List.nodup_cons.1 h
    by_cases hjk : j = k
    · subst hjk
      rw [valuesOf_cons_self, ih hes, find?_eq_none.2 hj, find?, if_pos rfl]
      rfl
    · rw [valuesOf_cons_of_ne hjk, ih hes, find?, if_neg hjk]

/-! ## Collecting pairs -/

/-- The entries are what a list of pairs leaves: the keys in the order of their first pairs, each
with the value of its last. -/
structure Collects (pairs : List (String × α)) (es : Entries α) : Prop where
  keys : keys es = (pairs.map Prod.fst).eraseDups
  find? : ∀ k, find? k es = find? k pairs.reverse

theorem ofPairs_concat (pairs : List (String × α)) (p : String × α) :
    ofPairs (pairs ++ [p]) = insert p.1 p.2 (ofPairs pairs) := by
  rw [ofPairs, insertAll, List.foldl_append]
  rfl

theorem collects_ofPairs (pairs : List (String × α)) : Collects pairs (ofPairs pairs) := by
  induction pairs using List.reverseRecOn with
  | nil => exact ⟨rfl, fun _ => rfl⟩
  | append_singleton pairs p ih =>
    obtain ⟨k, v⟩ := p
    rw [ofPairs_concat]
    constructor
    · rw [keys_insert, ih.keys, List.map_append, List.eraseDups_append]
      by_cases hk : k ∈ pairs.map Prod.fst
      · simp [hk, List.removeAll]
      · simp [hk, List.removeAll, List.eraseDups_cons]
    · intro k'
      rw [List.reverse_append, List.reverse_singleton, List.singleton_append]
      by_cases hk : k = k'
      · rw [hk, find?_insert_self, Entries.find?, if_pos rfl]
      · rw [find?_insert_of_ne hk, ih.find?, Entries.find?, if_neg hk]

/-- A list of pairs leaves one list of entries, the one that inserting them builds. -/
theorem collects_iff {pairs : List (String × α)} {es : Entries α} :
    Collects pairs es ↔ es = ofPairs pairs := by
  constructor
  · intro h
    have hpairs := collects_ofPairs pairs
    refine (ext_of_find? (distinct_ofPairs pairs) (hpairs.keys.trans h.keys.symm) fun k _ => ?_).symm
    rw [hpairs.find?, h.find?]
  · rintro rfl
    exact collects_ofPairs pairs

/-- Pairs with distinct keys are left as they are. -/
theorem ofPairs_eq_self {es : Entries α} (h : Distinct es) : ofPairs es = es := by
  induction es using List.reverseRecOn with
  | nil => rfl
  | append_singleton es p ih =>
    rw [ofPairs_concat, ih (h.sublist (List.sublist_append_left es [p])),
      insert_of_not_mem (not_mem_keys_of_distinct h)]

/-! ## Changing all values -/

section MapValues

variable {β : Type} (f : α → β)

/-- The entries with another value under each key. -/
def mapValues (es : Entries α) : Entries β := es.map fun e => (e.1, f e.2)

theorem mapValues_cons (e : String × α) (es : Entries α) :
    mapValues f (e :: es) = (e.1, f e.2) :: mapValues f es := rfl

theorem keys_mapValues (es : Entries α) : keys (mapValues f es) = keys es := by
  rw [keys, mapValues, List.map_map]
  rfl

theorem find?_mapValues (k : String) (es : Entries α) :
    find? k (mapValues f es) = (find? k es).map f := by
  induction es with
  | nil => rfl
  | cons e es ih =>
    rw [mapValues_cons, find?, find?]
    split
    · rfl
    · exact ih

theorem contains_mapValues (k : String) (es : Entries α) :
    contains k (mapValues f es) = contains k es := by
  rw [contains, find?_mapValues, Option.isSome_map, contains]

theorem mapValues_append (es fs : Entries α) :
    mapValues f (es ++ fs) = mapValues f es ++ mapValues f fs := List.map_append

/-- A filter that looks at keys only. -/
theorem mapValues_filter (p : String → Bool) (es : Entries α) :
    mapValues f (es.filter fun e => p e.1) = (mapValues f es).filter fun e => p e.1 := by
  rw [mapValues, mapValues, List.filter_map]
  rfl

theorem mapValues_insert (k : String) (v : α) (es : Entries α) :
    mapValues f (insert k v es) = insert k (f v) (mapValues f es) := by
  induction es with
  | nil => rfl
  | cons e es ih =>
    rw [mapValues_cons, insert, insert]
    split
    · rfl
    · rw [mapValues_cons, ih]

theorem mapValues_erase (k : String) (es : Entries α) :
    mapValues f (erase k es) = erase k (mapValues f es) := by
  induction es with
  | nil => rfl
  | cons e es ih =>
    rw [mapValues_cons, erase, erase]
    split
    · rfl
    · rw [mapValues_cons, ih]

theorem mapValues_insertSorted (e : String × α) (es : Entries α) :
    mapValues f (insertSorted e es) = insertSorted (e.1, f e.2) (mapValues f es) := by
  induction es with
  | nil => rfl
  | cons e' es ih =>
    rw [mapValues_cons, insertSorted, insertSorted]
    split
    · rfl
    · rw [mapValues_cons, ih]

theorem mapValues_sorted (es : Entries α) :
    mapValues f (sorted es) = sorted (mapValues f es) := by
  induction es with
  | nil => rfl
  | cons e es ih =>
    rw [sorted, List.foldr_cons, mapValues_insertSorted, ← sorted, ih]
    rfl

end MapValues

/-! ## Changing some values and dropping others -/

section FilterMapValues

variable {β : Type} {g : String → α → Option β}

/-- The entries with what a function makes of them; those of which it makes nothing are dropped. -/
def filterMapValues (g : String → α → Option β) (es : Entries α) : Entries β :=
  es.filterMap fun e => (g e.1 e.2).map fun v => (e.1, v)

theorem filterMapValues_cons_none {e : String × α} (h : g e.1 e.2 = none) (es : Entries α) :
    filterMapValues g (e :: es) = filterMapValues g es :=
  List.filterMap_cons_none (by rw [h]; rfl)

theorem filterMapValues_cons_some {e : String × α} {v : β} (h : g e.1 e.2 = some v)
    (es : Entries α) : filterMapValues g (e :: es) = (e.1, v) :: filterMapValues g es :=
  List.filterMap_cons_some (by rw [h]; rfl)

theorem filterMapValues_congr {g' : String → α → Option β} {es : Entries α}
    (h : ∀ e ∈ es, g e.1 e.2 = g' e.1 e.2) : filterMapValues g es = filterMapValues g' es :=
  List.filterMap_congr fun e he => by rw [h e he]

/-- When the key alone decides what is dropped. -/
theorem keys_filterMapValues {p : String → Bool} {es : Entries α}
    (h : ∀ e ∈ es, (g e.1 e.2).isSome = p e.1) :
    keys (filterMapValues g es) = (keys es).filter p := by
  induction es with
  | nil => rfl
  | cons e es ih =>
    obtain ⟨he, hes⟩ := List.forall_mem_cons.1 h
    rw [keys_cons, List.filter_cons, ← he, ← ih hes]
    cases hg : g e.1 e.2 with
    | none => rw [filterMapValues_cons_none hg, if_neg (by simp)]
    | some v => rw [filterMapValues_cons_some hg, keys_cons, if_pos (by simp)]

theorem keys_filterMapValues_sublist (es : Entries α) :
    (keys (filterMapValues g es)).Sublist (keys es) := by
  induction es with
  | nil => exact .slnil
  | cons e es ih =>
    cases hg : g e.1 e.2 with
    | none =>
      rw [filterMapValues_cons_none hg]
      exact ih.cons _
    | some v =>
      rw [filterMapValues_cons_some hg]
      exact ih.cons_cons _

theorem Distinct.filterMapValues {es : Entries α} (h : Distinct es) :
    Distinct (filterMapValues g es) :=
  List.Nodup.sublist (keys_filterMapValues_sublist es) h

theorem find?_filterMapValues {es : Entries α} (h : Distinct es) (k : String) :
    find? k (filterMapValues g es) = (find? k es).bind (g k) := by
  induction es with
  | nil => rfl
  | cons e es ih =>
    obtain ⟨j, v⟩ := e
    obtain ⟨hj, hes⟩ := List.nodup_cons.1 h
    by_cases hjk : j = k
    · subst hjk
      rw [find?, if_pos rfl, Option.bind_some]
      cases hg : g j v with
      | none =>
        rw [filterMapValues_cons_none hg, ih hes, find?_eq_none.2 hj]
        rfl
      | some w => rw [filterMapValues_cons_some hg, find?, if_pos rfl]
    · rw [find?, if_neg hjk, ← ih hes]
      cases hg : g j v with
      | none => rw [filterMapValues_cons_none hg]
      | some w => rw [filterMapValues_cons_some hg, find?, if_neg hjk]

/-- What a function leaves as it is, it leaves as it is again. -/
theorem filterMapValues_filterMapValues {g : String → α → Option α}
    (h : ∀ k v w, g k v = some w → g k w = some w) (es : Entries α) :
    filterMapValues g (filterMapValues g es) = filterMapValues g es := by
  induction es with
  | nil => rfl
  | cons e es ih =>
    cases hg : g e.1 e.2 with
    | none => rw [filterMapValues_cons_none hg, ih]
    | some v => rw [filterMapValues_cons_some hg, filterMapValues_cons_some (h _ _ _ hg), ih]

/-- Keys whose values are kept as they are. -/
theorem filter_filterMapValues {g : String → α → Option α} {q : String → Bool}
    (h : ∀ k v, q k = true → g k v = some v) (es : Entries α) :
    ((filterMapValues g es).filter fun e => q e.1) = es.filter fun e => q e.1 := by
  induction es with
  | nil => rfl
  | cons e es ih =>
    cases hg : g e.1 e.2 with
    | none =>
      have hq : q e.1 = false := Bool.eq_false_iff.2 fun hq => by
        rw [h e.1 e.2 hq] at hg
        cases hg
      rw [filterMapValues_cons_none hg, ih, List.filter_cons_of_neg (by rw [hq]; exact nofun)]
    | some v =>
      rw [filterMapValues_cons_some hg, List.filter_cons, List.filter_cons, ih]
      dsimp only
      cases hq : q e.1 with
      | false => rfl
      | true =>
        rw [h e.1 e.2 hq] at hg
        cases hg
        rfl

end FilterMapValues

end ColumnMetadata.Entries
