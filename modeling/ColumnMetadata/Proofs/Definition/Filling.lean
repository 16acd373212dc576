import ColumnMetadata.Definition.Filling
import ColumnMetadata.Proofs.Definition.Columns

/-!
# Filling only adds

A step that fills columns keeps each column with what it says (`Columns.Grows`), and leaves nothing
to be taken from its source again (`Columns.Covers`). Later steps cannot undo that, so filling
columns a second time from the same sources changes nothing (`Columns.fill_columns_eq_self`).
Whatever was well formed stays so.
-/

namespace ColumnMetadata

namespace Column

/-- The second column is the first one, perhaps with a description or tags that it did not have. -/
structure Extends (c c' : Column) : Prop where
  extra : c'.extra = c.extra
  layout : c'.layout = c.layout
  description : c.description.isEmpty = false → c'.description = c.description
  policyTags : c.policyTags.isNone = false → c'.policyTags = c.policyTags

theorem Extends.refl (c : Column) : c.Extends c := ⟨rfl, rfl, fun _ => rfl, fun _ => rfl⟩

theorem Extends.trans {a b c : Column} (hab : a.Extends b) (hbc : b.Extends c) : a.Extends c where
  extra := hbc.extra.trans hab.extra
  layout := hbc.layout.trans hab.layout
  description h := by
    have he := hab.description h
    rw [hbc.description (he ▸ h), he]
  policyTags h := by
    have he := hab.policyTags h
    rw [hbc.policyTags (he ▸ h), he]

theorem Extends.wellFormed {P : Number → Prop} {c c' : Column} (h : c.Extends c')
    (hc : c.WellFormedWith P) : c'.WellFormedWith P :=
  hc.of_eq h.extra h.layout

theorem extends_fillFrom (c inherited : Column) : c.Extends (c.fillFrom inherited) where
  extra := rfl
  layout := rfl
  description h := by simp [fillFrom, lacksDescription, h]
  policyTags h := by simp [fillFrom, lacksTags, h]

/-- A column has nothing to take from another one. -/
def Covers (c inherited : Column) : Prop :=
  c.lacksDescription inherited = false ∧ c.lacksTags inherited = false

theorem Covers.refl (c : Column) : c.Covers c := by
  constructor
  · rw [lacksDescription, Bool.and_not_self]
  · rw [lacksTags, ← Option.not_isNone, Bool.and_not_self]

theorem covers_fillFrom (c inherited : Column) : (c.fillFrom inherited).Covers inherited := by
  constructor
  · rw [lacksDescription, fillFrom]
    cases h : c.lacksDescription inherited with
    | true =>
      dsimp only
      rw [if_pos rfl, Bool.and_not_self]
    | false => exact h
  · rw [lacksTags, fillFrom]
    cases h : c.lacksTags inherited with
    | true =>
      dsimp only
      rw [if_pos rfl, ← Option.not_isNone, Bool.and_not_self]
    | false => exact h

theorem Covers.fillFrom_eq {c inherited : Column} (h : c.Covers inherited) :
    c.fillFrom inherited = c := by
  rw [fillFrom, h.1, h.2]
  rfl

/-- What a column has it does not lose. -/
theorem Covers.extends {c c' inherited : Column} (h : c.Covers inherited) (hc : c.Extends c') :
    c'.Covers inherited := by
  obtain ⟨hdescription, htags⟩ := h
  constructor
  · rw [lacksDescription, Bool.and_eq_false_iff] at hdescription ⊢
    exact hdescription.imp (fun h => (congrArg String.isEmpty (hc.description h)).trans h) id
  · rw [lacksTags, Bool.and_eq_false_iff] at htags ⊢
    exact htags.imp (fun h => (congrArg Option.isNone (hc.policyTags h)).trans h) id

theorem Covers.agree {c c' i i' : Column} (h : c.Covers i) (hc : c.Agree c') (hi : i.Agree i') :
    c'.Covers i' := by
  unfold Covers lacksDescription lacksTags at h ⊢
  rwa [hc.description, hc.policyTags, hi.description, hi.policyTags]

theorem wellFormed_ofField {P : Number → Prop} (f : WarehouseField) :
    (ofField f).WellFormedWith P :=
  (WellFormedWith.ofDescription (f.description.getD "")).of_eq rfl rfl

end Column

namespace Columns

/-- Every column is still there, with what it said. -/
def Grows (cs cs' : Columns) : Prop :=
  ∀ name c, Entries.find? name cs = some c →
    ∃ c', Entries.find? name cs' = some c' ∧ c.Extends c'

theorem Grows.refl (cs : Columns) : cs.Grows cs := fun _ c h => ⟨c, h, .refl c⟩

theorem Grows.trans {a b c : Columns} (hab : a.Grows b) (hbc : b.Grows c) : a.Grows c := by
  intro name x hx
  obtain ⟨y, hy, hxy⟩ := hab name x hx
  obtain ⟨z, hz, hyz⟩ := hbc name y hy
  exact ⟨z, hz, hxy.trans hyz⟩

theorem Grows.mem_keys {cs cs' : Columns} (h : cs.Grows cs') {name : String}
    (hname : name ∈ Entries.keys cs) : name ∈ Entries.keys cs' := by
  obtain ⟨c, hc⟩ := Option.isSome_iff_exists.1 (Entries.find?_isSome.2 hname)
  obtain ⟨c', hc', -⟩ := h name c hc
  exact Entries.find?_isSome.1 (hc' ▸ rfl)

/-- Columns in another order are still there. -/
theorem Grows.of_find?_eq {cs cs' : Columns}
    (h : ∀ name, Entries.find? name cs' = Entries.find? name cs) : cs.Grows cs' :=
  fun name c hc => ⟨c, (h name).trans hc, .refl c⟩

/-- The columns have nothing to take from those of a dependency. -/
def Covers (cs dependency : Columns) : Prop :=
  ∀ p ∈ dependency, ∃ c, Entries.find? p.1 cs = some c ∧ c.Covers p.2

theorem Covers.grows {cs cs' dependency : Columns} (h : cs.Covers dependency)
    (hcs : cs.Grows cs') : cs'.Covers dependency := by
  intro p hp
  obtain ⟨c, hc, hcovers⟩ := h p hp
  obtain ⟨c', hc', hextends⟩ := hcs p.1 c hc
  exact ⟨c', hc', hcovers.extends hextends⟩

/-- Nothing depends on how columns that agree came about. -/
theorem Covers.agree {cs cs' d d' : Columns} (h : cs.Covers d) (hcs : cs.Agree cs')
    (hd : d.Agree d') : cs'.Covers d' := by
  intro p hp
  obtain ⟨i, hi, hagree⟩ := hd.mem hp
  obtain ⟨c, hc, hcovers⟩ := h _ hi
  obtain ⟨c', hc', hagree'⟩ := hcs.find? hc
  exact ⟨c', hc', hcovers.agree hagree' hagree⟩

end Columns

/-! ## One step -/

namespace Filled

theorem grows_add (filled : Filled) {name : String} (c : Column)
    (h : name ∉ Entries.keys filled.columns) : filled.columns.Grows (filled.add name c).columns := by
  intro name' d hd
  have hne : name ≠ name' := by
    rintro rfl
    exact h (Entries.find?_isSome.1 (hd ▸ rfl))
  exact ⟨d, (Entries.find?_insert_of_ne hne c _).trans hd, .refl d⟩

theorem grows_addField (filled : Filled) (f : WarehouseField) :
    filled.columns.Grows (filled.addField f).columns := by
  unfold addField
  split
  · exact .refl _
  · next h => exact grows_add filled _ fun hname => h (Entries.contains_iff.2 hname)

theorem mem_keys_addField (filled : Filled) (f : WarehouseField) :
    f.name ∈ Entries.keys (filled.addField f).columns := by
  unfold addField
  split
  · next h => exact Entries.contains_iff.1 h
  · exact Entries.find?_isSome.1 (by rw [add, Entries.find?_insert_self]; rfl)

theorem addField_eq_self {filled : Filled} {f : WarehouseField}
    (h : f.name ∈ Entries.keys filled.columns) : filled.addField f = filled :=
  if_pos (Entries.contains_iff.2 h)

theorem wellFormed_addField {P : Number → Prop} {filled : Filled}
    (h : filled.columns.WellFormedWith P) (f : WarehouseField) :
    (filled.addField f).columns.WellFormedWith P := by
  unfold addField
  split
  · exact h
  · exact h.insert f.name (Column.wellFormed_ofField f)

theorem grows_inheritColumn (filled : Filled) (p : String × Column) :
    filled.columns.Grows (filled.inheritColumn p).columns := by
  obtain ⟨name, inherited⟩ := p
  unfold inheritColumn
  dsimp only
  split
  · next h => exact grows_add filled _ (Entries.find?_eq_none.1 h)
  · next c h =>
    intro name' d hd
    by_cases hname : name = name'
    · subst hname
      rw [h] at hd
      cases hd
      exact ⟨_, Entries.find?_insert_self .., c.extends_fillFrom inherited⟩
    · exact ⟨d, (Entries.find?_insert_of_ne hname _ _).trans hd, .refl d⟩

theorem covers_inheritColumn (filled : Filled) (p : String × Column) :
    ∃ c, Entries.find? p.1 (filled.inheritColumn p).columns = some c ∧ c.Covers p.2 := by
  obtain ⟨name, inherited⟩ := p
  unfold inheritColumn
  dsimp only
  split
  · exact ⟨inherited, Entries.find?_insert_self .., .refl inherited⟩
  · next c _ => exact ⟨_, Entries.find?_insert_self .., c.covers_fillFrom inherited⟩

theorem inheritColumn_columns {filled : Filled} {p : String × Column} {c : Column}
    (h : Entries.find? p.1 filled.columns = some c) (hc : c.Covers p.2) :
    (filled.inheritColumn p).columns = filled.columns := by
  obtain ⟨name, inherited⟩ := p
  unfold inheritColumn
  dsimp only at h ⊢
  rw [h]
  dsimp only
  rw [hc.fillFrom_eq, Entries.insert_eq_self h]

theorem wellFormed_inheritColumn {P : Number → Prop} {filled : Filled}
    (h : filled.columns.WellFormedWith P) {p : String × Column} (hp : p.2.WellFormedWith P) :
    (filled.inheritColumn p).columns.WellFormedWith P := by
  obtain ⟨name, inherited⟩ := p
  unfold inheritColumn
  dsimp only
  split
  · exact h.insert name hp
  · next c hc => exact h.insert name ((c.extends_fillFrom inherited).wellFormed (h.find? hc))

end Filled

namespace Columns

/-! ## Adding the fields of a table -/

theorem grows_foldl_addField (fields : List WarehouseField) (filled : Filled) :
    filled.columns.Grows (fields.foldl Filled.addField filled).columns := by
  induction fields generalizing filled with
  | nil => exact .refl _
  | cons f fields ih => exact (filled.grows_addField f).trans (ih _)

theorem grows_enrich (cs : Columns) (t : WarehouseTable) : cs.Grows (cs.enrich t).columns :=
  grows_foldl_addField t.fields (.start cs)

/-- All fields of the table are among the columns. -/
theorem mem_keys_enrich (cs : Columns) (t : WarehouseTable) {f : WarehouseField}
    (hf : f ∈ t.fields) : f.name ∈ Entries.keys (cs.enrich t).columns := by
  obtain ⟨before, after, hfields⟩ := List.append_of_mem hf
  rw [enrich, hfields, List.foldl_append, List.foldl_cons]
  exact (grows_foldl_addField after _).mem_keys (Filled.mem_keys_addField _ f)

theorem enrich_eq_self {cs : Columns} {t : WarehouseTable}
    (h : ∀ f ∈ t.fields, f.name ∈ Entries.keys cs) : cs.enrich t = .start cs := by
  unfold enrich
  generalize t.fields = fields at h
  induction fields with
  | nil => rfl
  | cons f fields ih =>
    obtain ⟨hf, hfields⟩ := List.forall_mem_cons.1 h
    have hself : (Filled.start cs).addField f = .start cs := Filled.addField_eq_self hf
    rw [List.foldl_cons, hself, ih hfields]

theorem WellFormedWith.enrich {P : Number → Prop} {cs : Columns} (h : cs.WellFormedWith P)
    (t : WarehouseTable) : (cs.enrich t).columns.WellFormedWith P := by
  unfold Columns.enrich
  generalize hfilled : Filled.start cs = filled
  replace h : filled.columns.WellFormedWith P := hfilled ▸ h
  clear hfilled
  induction t.fields generalizing filled with
  | nil => exact h
  | cons f fields ih => exact ih _ (Filled.wellFormed_addField h f)

/-! ## Inheriting from a dependency -/

theorem grows_foldl_inheritColumn (d : Columns) (filled : Filled) :
    filled.columns.Grows (d.foldl Filled.inheritColumn filled).columns := by
  induction d generalizing filled with
  | nil => exact .refl _
  | cons p d ih => exact (filled.grows_inheritColumn p).trans (ih _)

theorem grows_inherit (cs d : Columns) : cs.Grows (cs.inherit d).columns :=
  grows_foldl_inheritColumn d (.start cs)

/-- What was inherited need not be inherited again. -/
theorem covers_inherit (cs d : Columns) : (cs.inherit d).columns.Covers d := by
  intro p hp
  obtain ⟨before, after, rfl⟩ := List.append_of_mem hp
  rw [inherit, List.foldl_append, List.foldl_cons]
  obtain ⟨c, hc, hcovers⟩ :=
    Filled.covers_inheritColumn (before.foldl Filled.inheritColumn (.start cs)) p
  obtain ⟨c', hc', hextends⟩ := grows_foldl_inheritColumn after _ _ _ hc
  exact ⟨c', hc', hcovers.extends hextends⟩

theorem inherit_columns_eq_self {cs d : Columns} (h : cs.Covers d) :
    (cs.inherit d).columns = cs := by
  unfold inherit
  suffices hfold : ∀ filled : Filled, filled.columns = cs →
      (d.foldl Filled.inheritColumn filled).columns = cs from hfold _ rfl
  induction d with
  | nil => exact fun _ h => h
  | cons p d ih =>
    obtain ⟨⟨c, hc, hcovers⟩, hd⟩ := List.forall_mem_cons.1 h
    rintro filled rfl
    exact ih hd _ (Filled.inheritColumn_columns hc hcovers)

theorem WellFormedWith.inherit {P : Number → Prop} {cs d : Columns} (h : cs.WellFormedWith P)
    (hd : d.WellFormedWith P) : (cs.inherit d).columns.WellFormedWith P := by
  unfold Columns.inherit
  have hcolumns := hd.columns
  generalize hfilled : Filled.start cs = filled
  replace h : filled.columns.WellFormedWith P := hfilled ▸ h
  clear hfilled hd
  induction d generalizing filled with
  | nil => exact h
  | cons p d ih =>
    obtain ⟨hp, hd⟩ := List.forall_mem_cons.1 hcolumns
    exact ih hd _ (Filled.wellFormed_inheritColumn h hp)

/-! ## Putting columns in order -/

/-- Putting columns in order neither loses nor adds one. -/
theorem reorder_perm (names : List String) (cs : Columns) : (reorder names cs).Perm cs := by
  induction names generalizing cs with
  | nil => exact .refl _
  | cons name names ih =>
    unfold reorder
    split
    · next c hc => exact ((ih _).cons _).trans (Entries.perm_cons_erase hc).symm
    · exact ih cs

theorem WellFormedWith.reorder {P : Number → Prop} {cs : Columns} (h : cs.WellFormedWith P)
    (names : List String) : (reorder names cs).WellFormedWith P :=
  h.perm (reorder_perm names cs)

theorem find?_reorder {cs : Columns} (h : Entries.Distinct cs) (names : List String)
    (name : String) : Entries.find? name (reorder names cs) = Entries.find? name cs :=
  Entries.find?_of_perm h (reorder_perm names cs) name

/-- Columns that are in order stay as they are. -/
theorem reorder_reorder {cs : Columns} (h : Entries.Distinct cs) (names : List String) :
    reorder names (reorder names cs) = reorder names cs := by
  induction names generalizing cs with
  | nil => rfl
  | cons name names ih =>
    cases hc : Entries.find? name cs with
    | none => simp only [reorder, hc, find?_reorder h, ih h]
    | some c => simp only [reorder, hc, Entries.find?, Entries.erase, if_true, ih (h.erase name)]

/-- Columns that agree with columns in order are in order. -/
theorem Agree.reorder_eq_self {cs cs' : Columns} (h : cs.Agree cs') {names : List String}
    (he : reorder names cs = cs) : reorder names cs' = cs' := by
  induction names generalizing cs cs' with
  | nil => rfl
  | cons name names ih =>
    cases hc : Entries.find? name cs with
    | none =>
      have hc' : Entries.find? name cs' = none := by
        rw [Entries.find?_eq_none] at hc ⊢
        rwa [h.keys]
      rw [reorder, hc] at he
      rw [reorder, hc']
      exact ih h he
    | some c =>
      rw [reorder, hc] at he
      cases h with
      | nil => cases he
      | cons name' _ hs =>
        rw [List.cons.injEq, Prod.mk.injEq] at he
        obtain ⟨⟨rfl, rfl⟩, he⟩ := he
        rw [Entries.erase, if_pos rfl] at he
        simp only [reorder, Entries.find?, Entries.erase, if_true]
        rw [ih hs he]

/-! ## All steps -/

/-- What filling gives does not depend on how the changes are counted. -/
theorem fill_columns (cs : Columns) (t : WarehouseTable) (ds : List Columns) :
    (cs.fill t ds).columns = ds.foldl (fun cs d => (cs.inherit d).columns) (cs.enrich t).columns := by
  unfold fill
  generalize cs.enrich t = filled
  induction ds generalizing filled with
  | nil => rfl
  | cons d ds ih => exact ih _

section Inheriting

variable (cs : Columns) (ds : List Columns)

theorem grows_foldl_inherit : cs.Grows (ds.foldl (fun cs d => (cs.inherit d).columns) cs) := by
  induction ds generalizing cs with
  | nil => exact .refl _
  | cons d ds ih => exact (grows_inherit cs d).trans (ih _)

theorem covers_foldl_inherit {d : Columns} (hd : d ∈ ds) :
    (ds.foldl (fun cs d => (cs.inherit d).columns) cs).Covers d := by
  obtain ⟨before, after, rfl⟩ := List.append_of_mem hd
  rw [List.foldl_append, List.foldl_cons]
  exact (covers_inherit _ d).grows (grows_foldl_inherit _ after)

variable {cs ds}

theorem foldl_inherit_eq_self (h : ∀ d ∈ ds, cs.Covers d) :
    ds.foldl (fun cs d => (cs.inherit d).columns) cs = cs := by
  induction ds with
  | nil => rfl
  | cons d ds ih =>
    obtain ⟨hd, hds⟩ := List.forall_mem_cons.1 h
    rw [List.foldl_cons, inherit_columns_eq_self hd, ih hds]

theorem WellFormedWith.foldl_inherit {P : Number → Prop} (h : cs.WellFormedWith P)
    (hds : ∀ d ∈ ds, d.WellFormedWith P) :
    (ds.foldl (fun cs d => (cs.inherit d).columns) cs).WellFormedWith P := by
  induction ds generalizing cs with
  | nil => exact h
  | cons d ds ih =>
    obtain ⟨hd, hds⟩ := List.forall_mem_cons.1 hds
    exact ih (h.inherit hd) hds

end Inheriting

theorem grows_fill (cs : Columns) (t : WarehouseTable) (ds : List Columns) :
    cs.Grows (cs.fill t ds).columns := by
  rw [fill_columns]
  exact (grows_enrich cs t).trans (grows_foldl_inherit _ ds)

theorem mem_keys_fill (cs : Columns) (t : WarehouseTable) (ds : List Columns) {f : WarehouseField}
    (hf : f ∈ t.fields) : f.name ∈ Entries.keys (cs.fill t ds).columns := by
  rw [fill_columns]
  exact (grows_foldl_inherit _ ds).mem_keys (mem_keys_enrich cs t hf)

theorem covers_fill (cs : Columns) (t : WarehouseTable) {ds : List Columns} {d : Columns}
    (hd : d ∈ ds) : (cs.fill t ds).columns.Covers d := by
  rw [fill_columns]
  exact covers_foldl_inherit _ ds hd

/-- Columns that have all that there is to take are filled already. -/
theorem fill_columns_eq_self {cs : Columns} {t : WarehouseTable} {ds : List Columns}
    (hfields : ∀ f ∈ t.fields, f.name ∈ Entries.keys cs) (hds : ∀ d ∈ ds, cs.Covers d) :
    (cs.fill t ds).columns = cs := by
  rw [fill_columns, enrich_eq_self hfields]
  exact foldl_inherit_eq_self hds

theorem WellFormedWith.fill {P : Number → Prop} {cs : Columns} (h : cs.WellFormedWith P)
    (t : WarehouseTable) {ds : List Columns} (hds : ∀ d ∈ ds, d.WellFormedWith P) :
    (cs.fill t ds).columns.WellFormedWith P := by
  rw [fill_columns]
  exact (h.enrich t).foldl_inherit hds

end Columns

end ColumnMetadata
