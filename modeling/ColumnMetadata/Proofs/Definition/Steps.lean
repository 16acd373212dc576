import Mathlib.Data.List.Induction
import ColumnMetadata.Proofs.Definition.Precedence

/-!
# Filling step by step

Filling takes the fields of the table and then the columns of the dependencies one at a time
(`FillStep`). A step writes at most one record under one name (`FillStep.write?`), and what it adds to
the changes can be told from that record and the one that stood there before (`Filled.step_eq`). So
what filling does with columns and what it says about them both follow from the records that its
steps write (`Columns.fill_eq_after`).
-/

namespace ColumnMetadata

namespace Changes

theorem append_eq (a b : Changes) : a ++ b =
    ⟨a.added ++ b.added, a.descriptions ++ b.descriptions, a.policyTags ++ b.policyTags⟩ := rfl

theorem none_append (c : Changes) : none ++ c = c := rfl

theorem append_none (c : Changes) : c ++ none = c := by
  rw [append_eq, none, List.append_nil, List.append_nil, List.append_nil]

theorem append_assoc (a b c : Changes) : a ++ b ++ c = a ++ (b ++ c) := by
  simp only [append_eq, List.append_assoc]

theorem isNone_iff {c : Changes} : c.isNone = true ↔ c = none := by
  obtain ⟨added, descriptions, policyTags⟩ := c
  simp [isNone, none, and_assoc]

theorem append_eq_none {a b : Changes} : a ++ b = none ↔ a = none ∧ b = none := by
  obtain ⟨added, descriptions, policyTags⟩ := a
  obtain ⟨added', descriptions', policyTags'⟩ := b
  simp only [append_eq, none, mk.injEq, List.append_eq_nil_iff]
  tauto

/-- What writing a record under a name changes, told from the record that was there. -/
def ofWrite (old : Option Column) (name : String) (c : Column) : Changes where
  added := if old.isNone then [name] else []
  descriptions := if old.any (·.lacksDescription c) then [name] else []
  policyTags := if old.any (·.lacksTags c) then [name] else []

theorem ofWrite_none (name : String) (c : Column) : ofWrite Option.none name c = ⟨[name], [], []⟩ :=
  rfl

theorem ofWrite_some (old : Column) (name : String) (c : Column) : ofWrite (some old) name c =
    ⟨[], if old.lacksDescription c then [name] else [], if old.lacksTags c then [name] else []⟩ :=
  rfl

end Changes

/-- A step of filling. -/
inductive FillStep where
  /-- A field of the table, for which a column is added if there is none of its name. -/
  | field (f : WarehouseField)
  /-- A column of a dependency, from which the one of its name is filled. -/
  | column (name : String) (c : Column)

namespace FillStep

/-- The record that a step writes, and its name. -/
def write? (cs : Columns) : FillStep → Option (String × Column)
  | field f => if Entries.contains f.name cs then none else some (f.name, .ofField f)
  | column name c => (Column.takeFrom (Entries.find? name cs) c).map fun c => (name, c)

def ofTable (t : WarehouseTable) : List FillStep := t.fields.map field

def ofDependency (d : Columns) : List FillStep := d.map fun p => column p.1 p.2

/-- A step only adds to the record that was there. -/
theorem extends_of_write? {cs : Columns} {s : FillStep} {name : String} {c old : Column}
    (h : s.write? cs = some (name, c)) (hold : Entries.find? name cs = some old) :
    old.Extends c := by
  cases s with
  | field f =>
    rw [write?, Entries.contains] at h
    split at h
    · cases h
    · next hout =>
      cases h
      rw [hold] at hout
      exact absurd rfl hout
  | column name' i =>
    obtain ⟨c', hc', he⟩ := Option.map_eq_some_iff.1 h
    cases he
    rw [hold] at hc'
    cases hc'
    exact old.extends_fillFrom i

end FillStep

/-! ## What a step writes -/

theorem Column.lacksDescription_fillFrom (c i : Column) :
    c.lacksDescription (c.fillFrom i) = c.lacksDescription i := by
  unfold fillFrom
  cases h : c.lacksDescription i with
  | true => exact h
  | false =>
    rw [lacksDescription]
    exact Bool.and_not_self _

theorem Column.lacksTags_fillFrom (c i : Column) :
    c.lacksTags (c.fillFrom i) = c.lacksTags i := by
  unfold fillFrom
  cases h : c.lacksTags i with
  | true => exact h
  | false =>
    rw [lacksTags, ← Option.not_isNone]
    exact Bool.and_not_self _

namespace Filled

def step (filled : Filled) : FillStep → Filled
  | .field f => filled.addField f
  | .column name c => filled.inheritColumn (name, c)

/-- A step writes its record, if any, and says what that changes. -/
theorem step_eq (filled : Filled) (s : FillStep) :
    filled.step s = match s.write? filled.columns with
      | none => filled
      | some (name, c) => ⟨Entries.insert name c filled.columns,
          filled.changes ++ .ofWrite (Entries.find? name filled.columns) name c⟩ := by
  have hadd (name : String) (c : Column) : filled.add name c =
      ⟨Entries.insert name c filled.columns, filled.changes ++ .ofWrite none name c⟩ := by
    rw [add, Changes.ofWrite_none, Changes.append_eq, List.append_nil, List.append_nil]
  cases s with
  | field f =>
    rw [step, addField, FillStep.write?]
    split
    · rfl
    · next hout =>
      have hnone : Entries.find? f.name filled.columns = none :=
        Option.not_isSome_iff_eq_none.1 hout
      rw [hadd, ← hnone]
  | column name i =>
    rw [step, inheritColumn, FillStep.write?]
    dsimp only
    cases hc : Entries.find? name filled.columns with
    | none =>
      dsimp only [Column.takeFrom, Option.map_some]
      rw [hadd, hc]
    | some c =>
      dsimp only [Column.takeFrom, Option.map_some]
      rw [hc, Changes.ofWrite_some, Changes.append_eq, List.append_nil,
        c.lacksDescription_fillFrom, c.lacksTags_fillFrom]

theorem grows_step (filled : Filled) (s : FillStep) :
    filled.columns.Grows (filled.step s).columns := by
  cases s with
  | field f => exact filled.grows_addField f
  | column name c => exact filled.grows_inheritColumn (name, c)

end Filled

/-! ## Several steps -/

namespace Columns

/-- What filling has come to after some steps. -/
def after (cs : Columns) (steps : List FillStep) : Filled := steps.foldl Filled.step (.start cs)

theorem after_concat (cs : Columns) (steps : List FillStep) (s : FillStep) :
    cs.after (steps ++ [s]) = (cs.after steps).step s := List.foldl_append

theorem grows_foldl_step (steps : List FillStep) (filled : Filled) :
    filled.columns.Grows (steps.foldl Filled.step filled).columns := by
  induction steps generalizing filled with
  | nil => exact .refl _
  | cons s steps ih => exact (filled.grows_step s).trans (ih _)

/-- What was there at some point is still there later. -/
theorem grows_after {cs : Columns} {done steps : List FillStep} (h : done <+: steps) :
    (cs.after done).columns.Grows (cs.after steps).columns := by
  obtain ⟨more, rfl⟩ := h
  rw [after, after, List.foldl_append]
  exact grows_foldl_step more _

/-- Steps do the same to columns whatever was changed before, and add what they change. -/
theorem foldl_step_eq (steps : List FillStep) (filled : Filled) :
    steps.foldl Filled.step filled =
      ⟨(filled.columns.after steps).columns,
        filled.changes ++ (filled.columns.after steps).changes⟩ := by
  induction steps generalizing filled with
  | nil => exact congrArg (Filled.mk filled.columns) filled.changes.append_none.symm
  | cons s steps ih =>
    have hcons : filled.columns.after (s :: steps) =
        steps.foldl Filled.step ((Filled.start filled.columns).step s) := rfl
    rw [List.foldl_cons, hcons, ih, ih, filled.step_eq, Filled.step_eq (.start filled.columns)]
    dsimp only [Filled.start]
    split
    · rfl
    · dsimp only
      rw [Changes.none_append, Changes.append_assoc]

theorem enrich_eq_after (cs : Columns) (t : WarehouseTable) :
    cs.enrich t = cs.after (FillStep.ofTable t) := by
  rw [enrich, after, FillStep.ofTable, List.foldl_map]
  rfl

theorem inherit_eq_after (cs d : Columns) : cs.inherit d = cs.after (FillStep.ofDependency d) := by
  rw [inherit, after, FillStep.ofDependency, List.foldl_map]
  rfl

/-- The steps that filling takes. -/
def fillSteps (t : WarehouseTable) (ds : List Columns) : List FillStep :=
  FillStep.ofTable t ++ ds.flatMap FillStep.ofDependency

theorem fill_eq_after (cs : Columns) (t : WarehouseTable) (ds : List Columns) :
    cs.fill t ds = cs.after (fillSteps t ds) := by
  rw [fill, fillSteps, after, List.foldl_append, ← after, ← enrich_eq_after, List.foldl_flatMap]
  congr 1
  funext filled d
  rw [foldl_step_eq, ← inherit_eq_after]

end Columns

end ColumnMetadata
