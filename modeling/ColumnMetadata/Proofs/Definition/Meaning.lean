import ColumnMetadata.Proofs.Definition.Filling

/-!
# What columns say

What a column says does not depend on the order of the keys in its entry (`Column.meaning`). Filling
columns and putting them in order sees only what they say (`Columns.meaning_fill`,
`Columns.meaning_reorder`), and reading what was written keeps it (`Columns.Agree.meaning_eq`).
Columns that say the same have equal metadata under the same names (`Columns.same_of_meaning_eq`).
-/

namespace ColumnMetadata

namespace Column

/-- What a column says, without the order of its keys. -/
structure Meaning where
  description : String
  policyTags : Option (List String)
  extra : String → Option Value

def meaning (c : Column) : Meaning :=
  ⟨c.description, c.policyTags, fun k => Entries.find? k c.extra⟩

theorem meaning_eq_iff {c c' : Column} :
    c.meaning = c'.meaning ↔ c.description = c'.description ∧ c.policyTags = c'.policyTags ∧
      ∀ k, Entries.find? k c.extra = Entries.find? k c'.extra := by
  rw [meaning, meaning, Meaning.mk.injEq, funext_iff]

theorem meaning_fillFrom {c c' i i' : Column} (hc : c.meaning = c'.meaning)
    (hi : i.meaning = i'.meaning) : (c.fillFrom i).meaning = (c'.fillFrom i').meaning := by
  obtain ⟨hdescription, htags, hextra⟩ := meaning_eq_iff.1 hc
  obtain ⟨hdescription', htags', -⟩ := meaning_eq_iff.1 hi
  have hlacks : c.lacksDescription i = c'.lacksDescription i' := by
    rw [lacksDescription, lacksDescription, hdescription, hdescription']
  have hlacks' : c.lacksTags i = c'.lacksTags i' := by
    rw [lacksTags, lacksTags, htags, htags']
  refine meaning_eq_iff.2 ⟨?_, ?_, hextra⟩
  · rw [fillFrom, fillFrom, hlacks, hdescription, hdescription']
  · rw [fillFrom, fillFrom, hlacks', htags, htags']

/-- What is read back says what was written. -/
theorem Agree.meaning_eq {c c' : Column} (h : c.Agree c') (hc : c.WellFormed)
    (hc' : c'.WellFormed) : c'.meaning = c.meaning := by
  refine meaning_eq_iff.2 ⟨h.description, h.policyTags, fun k => ?_⟩
  have hfields : Entries.find? k c'.toFields = Entries.find? k c.toFields :=
    congrArg (Entries.find? k) (Value.object.inj h.written)
  rw [find?_toFields hc, find?_toFields hc'] at hfields
  by_cases hd : k = descriptionKey
  · rw [hd, Entries.find?_eq_none.2 hc.noDescription, Entries.find?_eq_none.2 hc'.noDescription]
  · by_cases ht : k = tagsKey
    · rw [ht, Entries.find?_eq_none.2 hc.noTags, Entries.find?_eq_none.2 hc'.noTags]
    · rwa [if_neg hd, if_neg ht, if_neg hd, if_neg ht] at hfields

theorem same_of_meaning_eq {c c' : Column} (hc : c.WellFormed) (hc' : c'.WellFormed)
    (h : c.meaning = c'.meaning) : c.same c' = true := by
  obtain ⟨hdescription, htags, hextra⟩ := meaning_eq_iff.1 h
  have hvalues := Value.sameValue_object hc.extra hc'.extra
    (fun p hp => (hc.values p hp).fits.sameValue_self) hextra
  simp [same, hdescription, htags, hvalues]

end Column

namespace Columns

/-- What columns say, in their order. -/
def meaning (cs : Columns) : Entries Column.Meaning := Entries.mapValues Column.meaning cs

/-- The same names in the same order, with equal metadata. -/
def Same (cs cs' : Columns) : Prop :=
  List.Forall₂ (fun p p' : String × Column => p.1 = p'.1 ∧ p.2.same p'.2 = true) cs cs'

theorem Agree.meaning_eq {cs cs' : Columns} (h : cs.Agree cs') (hcs : cs.WellFormed)
    (hcs' : cs'.WellFormed) : cs'.meaning = cs.meaning := by
  have hall := hcs.columns
  have hall' := hcs'.columns
  clear hcs hcs'
  induction h with
  | nil => rfl
  | cons name h _ ih =>
    obtain ⟨hc, hcs⟩ := List.forall_mem_cons.1 hall
    obtain ⟨hc', hcs'⟩ := List.forall_mem_cons.1 hall'
    rw [meaning, meaning, Entries.mapValues_cons, Entries.mapValues_cons]
    dsimp only
    rw [h.meaning_eq hc hc']
    exact congrArg _ (ih hcs hcs')

/-- Columns that say the same have equal metadata. -/
theorem same_of_meaning_eq {cs cs' : Columns} (hcs : cs.WellFormed) (hcs' : cs'.WellFormed)
    (h : cs.meaning = cs'.meaning) : cs.Same cs' := by
  have hall := hcs.columns
  have hall' := hcs'.columns
  clear hcs hcs'
  induction cs generalizing cs' with
  | nil =>
    rw [List.map_eq_nil_iff.1 h.symm]
    exact .nil
  | cons p cs ih =>
    obtain ⟨p', rest, rfl, hp, hrest⟩ := List.map_eq_cons_iff.1 h.symm
    obtain ⟨hc, hcs⟩ := List.forall_mem_cons.1 hall
    obtain ⟨hc', hcs'⟩ := List.forall_mem_cons.1 hall'
    obtain ⟨hname, hmeaning⟩ := Prod.mk.inj hp
    exact .cons ⟨hname.symm, Column.same_of_meaning_eq hc hc' hmeaning.symm⟩
      (ih hrest.symm hcs hcs')

/-! ## Filling -/

section Congruence

variable {cs cs' : Columns} (h : cs.meaning = cs'.meaning)

include h in
theorem find?_meaning (name : String) :
    (Entries.find? name cs).map Column.meaning = (Entries.find? name cs').map Column.meaning := by
  rw [← Entries.find?_mapValues, ← Entries.find?_mapValues]
  exact congrArg (Entries.find? name) h

include h in
/-- Under each name both have a column that says the same, or neither has one. -/
theorem find?_cases (name : String) :
    (Entries.find? name cs = none ∧ Entries.find? name cs' = none) ∨
      ∃ c c', Entries.find? name cs = some c ∧ Entries.find? name cs' = some c' ∧
        c.meaning = c'.meaning := by
  have hname := find?_meaning h name
  cases hc : Entries.find? name cs with
  | none =>
    rw [hc, Option.map_none, eq_comm, Option.map_eq_none_iff] at hname
    exact .inl ⟨rfl, hname⟩
  | some c =>
    rw [hc, Option.map_some, eq_comm, Option.map_eq_some_iff] at hname
    obtain ⟨c', hc', he⟩ := hname
    exact .inr ⟨c, c', rfl, hc', he.symm⟩

include h in
theorem meaning_insert (name : String) {c c' : Column} (hc : c.meaning = c'.meaning) :
    meaning (Entries.insert name c cs) = meaning (Entries.insert name c' cs') := by
  rw [meaning, meaning, Entries.mapValues_insert, Entries.mapValues_insert, hc]
  exact congrArg _ h

include h in
theorem meaning_reorder (names : List String) :
    (reorder names cs).meaning = (reorder names cs').meaning := by
  induction names generalizing cs cs' with
  | nil => exact h
  | cons name names ih =>
    rcases find?_cases h name with ⟨hc, hc'⟩ | ⟨c, c', hc, hc', hmeaning⟩
    · rw [reorder, reorder, hc, hc']
      exact ih h
    · have herase : meaning (Entries.erase name cs) = meaning (Entries.erase name cs') := by
        rw [meaning, meaning, Entries.mapValues_erase, Entries.mapValues_erase]
        exact congrArg _ h
      rw [reorder, reorder, hc, hc']
      dsimp only
      rw [meaning, meaning, Entries.mapValues_cons, Entries.mapValues_cons]
      dsimp only
      rw [hmeaning]
      exact congrArg _ (ih herase)

end Congruence

section Filled

variable {filled filled' : Filled} (h : filled.columns.meaning = filled'.columns.meaning)

include h in
theorem meaning_addField (f : WarehouseField) :
    (filled.addField f).columns.meaning = (filled'.addField f).columns.meaning := by
  unfold Filled.addField Entries.contains
  rcases find?_cases h f.name with ⟨hc, hc'⟩ | ⟨c, c', hc, hc', -⟩
  · rw [hc, hc']
    exact meaning_insert h f.name rfl
  · rw [hc, hc']
    exact h

include h in
theorem meaning_inheritColumn (name : String) {i i' : Column} (hi : i.meaning = i'.meaning) :
    (filled.inheritColumn (name, i)).columns.meaning =
      (filled'.inheritColumn (name, i')).columns.meaning := by
  unfold Filled.inheritColumn
  dsimp only
  rcases find?_cases h name with ⟨hc, hc'⟩ | ⟨c, c', hc, hc', hmeaning⟩
  · rw [hc, hc']
    exact meaning_insert h name hi
  · rw [hc, hc']
    exact meaning_insert h name (Column.meaning_fillFrom hmeaning hi)

end Filled

theorem meaning_enrich {cs cs' : Columns} (h : cs.meaning = cs'.meaning) (t : WarehouseTable) :
    (cs.enrich t).columns.meaning = (cs'.enrich t).columns.meaning := by
  have hfold : ∀ (fields : List WarehouseField) (filled filled' : Filled),
      filled.columns.meaning = filled'.columns.meaning →
      (fields.foldl Filled.addField filled).columns.meaning =
        (fields.foldl Filled.addField filled').columns.meaning := by
    intro fields
    induction fields with
    | nil => exact fun _ _ h => h
    | cons f fields ih => exact fun _ _ h => ih _ _ (meaning_addField h f)
  exact hfold t.fields _ _ h

theorem meaning_inherit {cs cs' d d' : Columns} (h : cs.meaning = cs'.meaning)
    (hd : d.meaning = d'.meaning) :
    (cs.inherit d).columns.meaning = (cs'.inherit d').columns.meaning := by
  unfold inherit
  suffices hfold : ∀ filled filled' : Filled, filled.columns.meaning = filled'.columns.meaning →
      (d.foldl Filled.inheritColumn filled).columns.meaning =
        (d'.foldl Filled.inheritColumn filled').columns.meaning from hfold _ _ h
  clear h
  induction d generalizing d' with
  | nil =>
    rw [List.map_eq_nil_iff.1 hd.symm]
    exact fun _ _ h => h
  | cons p d ih =>
    obtain ⟨⟨name', i'⟩, rest, rfl, hp, hrest⟩ := List.map_eq_cons_iff.1 hd.symm
    obtain ⟨name, i⟩ := p
    obtain ⟨hname, hi⟩ := Prod.mk.inj hp
    dsimp only at hname hi
    subst hname
    intro filled filled' h
    exact ih hrest.symm _ _ (meaning_inheritColumn h name' hi.symm)

/-- What filling comes to depends on what the columns and those of the dependencies say. -/
theorem meaning_fill {cs cs' : Columns} (h : cs.meaning = cs'.meaning) (t : WarehouseTable)
    {ds ds' : List Columns} (hds : ds.map meaning = ds'.map meaning) :
    (cs.fill t ds).columns.meaning = (cs'.fill t ds').columns.meaning := by
  rw [fill_columns, fill_columns]
  replace h := meaning_enrich h t
  generalize (cs.enrich t).columns = filled at h ⊢
  generalize (cs'.enrich t).columns = filled' at h ⊢
  induction ds generalizing ds' filled filled' with
  | nil =>
    rw [List.map_eq_nil_iff.1 hds.symm]
    exact h
  | cons d ds ih =>
    obtain ⟨d', rest, rfl, hd, hrest⟩ := List.map_eq_cons_iff.1 hds.symm
    exact ih hrest.symm _ _ (meaning_inherit h hd.symm)

end Columns

end ColumnMetadata
