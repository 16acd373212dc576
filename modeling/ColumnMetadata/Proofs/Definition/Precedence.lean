import ColumnMetadata.Proofs.Basic
import ColumnMetadata.Proofs.Definition.Filling

/-!
# Whose metadata counts

Filling asks the sources of a column one after the other (`Columns.sources`): first the definition's
own column, or the field of the table if it has none, and then the columns of that name in each
dependency. The column is that of the first source, with the first description that is not empty and
the first list of tags that is there (`Columns.find?_fill`). The names stand in the order in which
they are first met (`Columns.keys_fill`). The two facts together say what filling gives, whatever
order its steps take the columns in (`Columns.fill_takes_first_sources`).
-/

namespace ColumnMetadata

/-! ## One column -/

namespace Column

/-- The first description that is not empty; empty if there is none. -/
def firstDescription (sources : List Column) : String :=
  ((sources.map description).find? fun d => !d.isEmpty).getD ""

/-- The first list of tags that is there; an empty list is there. -/
def firstTags (sources : List Column) : Option (List String) := sources.findSome? policyTags

/-- The column that sources come to: the first of them, with the first description and the first
tags. Without a source there is no column. -/
def ofSources? (sources : List Column) : Option Column :=
  sources.head?.map fun first =>
    { first with description := firstDescription sources, policyTags := firstTags sources }

theorem firstDescription_cons (c : Column) (cs : List Column) :
    firstDescription (c :: cs) =
      if c.description.isEmpty then firstDescription cs else c.description := by
  unfold firstDescription
  rw [List.map_cons, List.find?_cons]
  cases c.description.isEmpty <;> rfl

theorem firstTags_cons (c : Column) (cs : List Column) :
    firstTags (c :: cs) = c.policyTags.or (firstTags cs) := by
  unfold firstTags
  rw [List.findSome?_cons]
  cases c.policyTags <;> rfl

theorem ofSources?_singleton (c : Column) : ofSources? [c] = some c := by
  have hdescription : firstDescription [c] = c.description := by
    rw [firstDescription_cons]
    split
    · next hempty => exact (String.isEmpty_iff.1 hempty).symm
    · rfl
  have htags : firstTags [c] = c.policyTags := by
    rw [firstTags_cons]
    exact Option.or_none
  rw [ofSources?, hdescription, htags]
  rfl

/-- Filling the first source from the second one takes nothing from what the others have to give. -/
theorem ofSources?_fillFrom (c i : Column) (cs : List Column) :
    ofSources? (c.fillFrom i :: cs) = ofSources? (c :: i :: cs) := by
  have hdescription : firstDescription (c.fillFrom i :: cs) = firstDescription (c :: i :: cs) := by
    rw [firstDescription_cons, firstDescription_cons, firstDescription_cons, fillFrom,
      lacksDescription]
    cases hc : c.description.isEmpty with
    | false => simp [hc]
    | true =>
      cases hi : i.description.isEmpty with
      | false => simp [hi]
      | true => simp [hc]
  have htags : firstTags (c.fillFrom i :: cs) = firstTags (c :: i :: cs) := by
    rw [firstTags_cons, firstTags_cons, firstTags_cons, fillFrom, lacksTags]
    cases hc : c.policyTags with
    | some tags => simp
    | none =>
      cases hi : i.policyTags with
      | some tags => simp
      | none => simp
  rw [ofSources?, ofSources?, hdescription, htags]
  rfl

/-- What becomes of a column, if there is one, when one of its name is inherited. -/
def takeFrom : Option Column → Column → Option Column
  | none, i => some i
  | some c, i => some (c.fillFrom i)

theorem foldl_takeFrom (c? : Option Column) (is : List Column) :
    is.foldl takeFrom c? = ofSources? (c?.toList ++ is) := by
  induction is generalizing c? with
  | nil =>
    rw [List.append_nil, List.foldl_nil]
    cases c? with
    | none => rfl
    | some c => exact (ofSources?_singleton c).symm
  | cons i is ih =>
    rw [List.foldl_cons, ih]
    cases c? with
    | none => rfl
    | some c => exact ofSources?_fillFrom c i is

end Column

/-! ## One step -/

namespace Filled

theorem find?_addField (filled : Filled) (f : WarehouseField) (name : String) :
    Entries.find? name (filled.addField f).columns =
      (Entries.find? name filled.columns).or
        (if f.name = name then some (.ofField f) else none) := by
  unfold addField
  split
  · next hin =>
    by_cases hname : f.name = name
    · obtain ⟨c, hc⟩ := Option.isSome_iff_exists.1 hin
      rw [← hname, hc, Option.some_or]
    · rw [if_neg hname, Option.or_none]
  · next hout =>
    have hnone : Entries.find? f.name filled.columns = none :=
      Option.not_isSome_iff_eq_none.1 hout
    by_cases hname : f.name = name
    · rw [← hname, hnone, add, Entries.find?_insert_self, if_pos rfl, Option.none_or]
    · rw [add, Entries.find?_insert_of_ne hname, if_neg hname, Option.or_none]

theorem keys_addField (filled : Filled) (f : WarehouseField) :
    Entries.keys (filled.addField f).columns = noted (Entries.keys filled.columns) f.name := by
  unfold addField noted
  split
  · next hin => rw [if_pos (List.contains_iff_mem.2 (Entries.contains_iff.1 hin))]
  · next hout =>
    have hnew : f.name ∉ Entries.keys filled.columns := fun hmem =>
      hout (Entries.contains_iff.2 hmem)
    rw [add, Entries.keys_insert, if_neg hnew, if_neg (mt List.contains_iff_mem.1 hnew)]

theorem find?_inheritColumn (filled : Filled) (p : String × Column) (name : String) :
    Entries.find? name (filled.inheritColumn p).columns =
      if p.1 = name then Column.takeFrom (Entries.find? name filled.columns) p.2
      else Entries.find? name filled.columns := by
  obtain ⟨name', inherited⟩ := p
  unfold inheritColumn
  dsimp only
  by_cases hname : name' = name
  · subst hname
    rw [if_pos rfl]
    split
    · next hc => rw [hc, add, Entries.find?_insert_self, Column.takeFrom]
    · next c hc => rw [hc, Entries.find?_insert_self, Column.takeFrom]
  · rw [if_neg hname]
    split
    · rw [add, Entries.find?_insert_of_ne hname]
    · rw [Entries.find?_insert_of_ne hname]

theorem keys_inheritColumn (filled : Filled) (p : String × Column) :
    Entries.keys (filled.inheritColumn p).columns = noted (Entries.keys filled.columns) p.1 := by
  obtain ⟨name, inherited⟩ := p
  have hinsert (c : Column) : Entries.keys (Entries.insert name c filled.columns) =
      noted (Entries.keys filled.columns) name := by
    rw [Entries.keys_insert, noted]
    simp only [List.contains_iff_mem]
  unfold inheritColumn
  dsimp only
  split
  · exact hinsert inherited
  · exact hinsert _

end Filled

/-! ## All steps -/

namespace Columns

variable (cs : Columns) (t : WarehouseTable) (ds : List Columns)

theorem find?_enrich (name : String) :
    Entries.find? name (cs.enrich t).columns = (Entries.find? name cs).or
      ((t.fields.find? fun f => f.name == name).map Column.ofField) := by
  have hfold : ∀ (fields : List WarehouseField) (filled : Filled),
      Entries.find? name (fields.foldl Filled.addField filled).columns =
        (Entries.find? name filled.columns).or
          ((fields.find? fun f => f.name == name).map Column.ofField) := by
    intro fields
    induction fields with
    | nil => exact fun filled => Option.or_none.symm
    | cons f fields ih =>
      intro filled
      rw [List.foldl_cons, ih, Filled.find?_addField, Option.or_assoc, List.find?_cons]
      by_cases hname : f.name = name
      · rw [if_pos hname, beq_iff_eq.2 hname]
        rfl
      · rw [if_neg hname, beq_false_of_ne hname, Option.none_or]
  exact hfold t.fields (.start cs)

theorem find?_inherit (d : Columns) (name : String) :
    Entries.find? name (cs.inherit d).columns =
      (Entries.valuesOf name d).foldl Column.takeFrom (Entries.find? name cs) := by
  have hfold : ∀ (d : Columns) (filled : Filled),
      Entries.find? name (d.foldl Filled.inheritColumn filled).columns =
        (Entries.valuesOf name d).foldl Column.takeFrom (Entries.find? name filled.columns) := by
    intro d
    induction d with
    | nil => exact fun _ => rfl
    | cons p d ih =>
      intro filled
      rw [List.foldl_cons, ih, Filled.find?_inheritColumn]
      by_cases hname : p.1 = name
      · rw [if_pos hname, ← hname, Entries.valuesOf_cons_self, List.foldl_cons]
      · rw [if_neg hname, Entries.valuesOf_cons_of_ne hname]
  exact hfold d (.start cs)

theorem keys_enrich :
    Entries.keys (cs.enrich t).columns = t.columnNames.foldl noted (Entries.keys cs) := by
  rw [WarehouseTable.columnNames, List.foldl_map]
  exact (List.foldl_hom (fun filled : Filled => Entries.keys filled.columns)
    fun filled f => (filled.keys_addField f).symm).symm

theorem keys_inherit (d : Columns) :
    Entries.keys (cs.inherit d).columns = (Entries.keys d).foldl noted (Entries.keys cs) := by
  rw [Entries.keys.eq_def d, List.foldl_map]
  exact (List.foldl_hom (fun filled : Filled => Entries.keys filled.columns)
    fun filled p => (filled.keys_inheritColumn p).symm).symm

/-- The sources of a column in the order in which they count: the definition's own column, or else
the first field of the table that has the name, and then the columns of the name in each dependency
in turn. -/
def sources (name : String) : List Column :=
  ((Entries.find? name cs).or ((t.fields.find? fun f => f.name == name).map Column.ofField)).toList ++
    ds.flatMap (Entries.valuesOf name)

/-- A column comes to what its sources say. -/
theorem find?_fill (name : String) :
    Entries.find? name (cs.fill t ds).columns = Column.ofSources? (cs.sources t ds name) := by
  rw [fill_columns, sources, ← find?_enrich, ← Column.foldl_takeFrom, List.foldl_flatMap]
  exact (List.foldl_hom (Entries.find? name) fun cs d => (find?_inherit cs d name).symm).symm

theorem keys_fill :
    Entries.keys (cs.fill t ds).columns =
      (t.columnNames ++ ds.flatMap Entries.keys).foldl noted (Entries.keys cs) := by
  rw [fill_columns, List.foldl_append, ← keys_enrich, List.foldl_flatMap]
  exact (List.foldl_hom Entries.keys fun cs d => (keys_inherit cs d).symm).symm

/-- What filling gives. The names are those that were there, and then the new ones of the table and
of each dependency in turn, in the order in which they are first met. Under each name stands what
its sources come to, where a field of the table has no keys of its own. So no column is lost, and no
description, tag list or key that a column had. -/
theorem fill_takes_first_sources :
    Entries.keys (cs.fill t ds).columns = Entries.keys cs ++
      ((t.columnNames ++ ds.flatMap Entries.keys).filter
        fun name => !(Entries.keys cs).contains name).eraseDups ∧
    (∀ name, Entries.find? name (cs.fill t ds).columns =
      (cs.sources t ds name).head?.map fun first =>
        { first with
          description := Column.firstDescription (cs.sources t ds name)
          policyTags := Column.firstTags (cs.sources t ds name) }) ∧
    (∀ f : WarehouseField, (Column.ofField f).description = f.description.getD "" ∧
      (Column.ofField f).policyTags = f.policyTags ∧ (Column.ofField f).extra = []) ∧
    cs.Grows (cs.fill t ds).columns := by
  refine ⟨?_, cs.find?_fill t ds, fun f => ⟨rfl, rfl, rfl⟩, cs.grows_fill t ds⟩
  rw [keys_fill, foldl_noted]

/-- The first of two fields with one name counts, and so does a list without tags. -/
example :
    (fill [("a", .ofDescription "")]
      ⟨"s", "t", [⟨"b", none, none⟩, ⟨"b", some "another", none⟩]⟩
      [[("b", ⟨"first", some [], [], []⟩)],
        [("a", .ofDescription "x"), ("b", ⟨"second", some ["tag"], [], []⟩)]]).columns =
      [("a", .ofDescription "x"), ("b", ⟨"first", some [], [], [Column.descriptionKey]⟩)] := by
  decide +kernel

end Columns

end ColumnMetadata
