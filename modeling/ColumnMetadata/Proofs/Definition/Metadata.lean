import ColumnMetadata.Definition.Metadata
import ColumnMetadata.Proofs.Definition.Columns

/-!
# The content of a block is read back

The content of a block is written as an object that is read as content with the same fields and with
columns that agree (`Metadata.exists_ofValue_toValue`). Columns that had no place among the fields
have one then.
-/

namespace ColumnMetadata.Metadata

open Literal (maxDepth)

/-- What reading a block ensures and filling keeps, when the numbers in it are of one kind. -/
structure WellFormedWith (P : Number → Prop) (m : Metadata) : Prop where
  fields : Entries.Distinct m.fields
  noColumns : columnsKey ∉ Entries.keys m.fields
  values : ∀ p ∈ m.fields, p.2.Within P (columnRoom + 2)
  columns : m.columns.WellFormedWith P

/-- Well-formed content whose numbers are read back as themselves. -/
abbrev WellFormed (m : Metadata) : Prop := m.WellFormedWith Number.Rereads

variable {P : Number → Prop}

theorem WellFormedWith.withColumns {m : Metadata} (h : m.WellFormedWith P) {cs : Columns}
    (hcs : cs.WellFormedWith P) : WellFormedWith P { m with columns := cs } :=
  { h with columns := hcs }

/-- Content that was read is well formed. -/
theorem WellFormedWith.of_ofValue {v : Value} {m : Metadata} (h : Metadata.ofValue v = .ok m)
    (hv : v.Within P maxDepth) : m.WellFormedWith P := by
  cases v with
  | object fs =>
    obtain ⟨hkeys, hfields⟩ := Value.within_object.1 hv
    unfold Metadata.ofValue at h
    dsimp only at h
    split at h
    · next hnone =>
      cases h
      exact ⟨hkeys, Entries.find?_eq_none.1 hnone, hfields, .nil⟩
    · next w hw =>
      obtain ⟨cs, hcs, he⟩ := map_eq_ok.1 h
      cases he
      exact ⟨hkeys.erase _, Entries.not_mem_keys_erase hkeys,
        fun p hp => hfields p (Entries.mem_of_mem_erase hp),
        .of_ofValue hcs (hfields _ (Entries.mem_of_find? hw))⟩
  | _ => cases h

/-! ## Writing -/

/-- The written fields: without columns they are all there is, else the columns stand somewhere
among them. -/
theorem toFields_cases (m : Metadata) :
    (m.columnsPlace = none ∧ m.toFields = m.fields) ∨
      ∃ before after, m.fields = before ++ after ∧
        m.toFields = before ++ (columnsKey, m.columns.toValue) :: after := by
  unfold toFields
  split
  · next h => exact .inl ⟨h, rfl⟩
  · next i _ => exact .inr ⟨_, _, (List.take_append_drop i m.fields).symm, rfl⟩

/-- Only columns that there are none of have no place. -/
theorem columns_eq_nil_of_columnsPlace {m : Metadata} (h : m.columnsPlace = none) :
    m.columns = [] := by
  rw [columnsPlace, Option.orElse_eq_orElse, Option.orElse_eq_or, Option.or_eq_none_iff] at h
  obtain ⟨-, hempty⟩ := h
  split at hempty
  · next hnil => exact List.isEmpty_iff.1 hnil
  · cases hempty

theorem distinct_toFields {m : Metadata} (h : m.WellFormedWith P) :
    Entries.Distinct m.toFields := by
  rcases m.toFields_cases with ⟨-, he⟩ | ⟨before, after, hfields, he⟩
  · exact he ▸ h.fields
  · have hkeys := h.fields
    have hno := h.noColumns
    rw [hfields] at hkeys hno
    rw [Entries.keys_append, List.mem_append, not_or] at hno
    rw [he, Entries.Distinct, Entries.keys_append, Entries.keys_cons,
      List.perm_middle.nodup_iff, List.nodup_cons]
    exact ⟨by rw [List.mem_append, not_or]; exact hno, Entries.keys_append .. ▸ hkeys⟩

/-- The written content fits into a block, with numbers of the same kind. -/
theorem within_toValue {m : Metadata} (h : m.WellFormedWith P) : m.toValue.Within P maxDepth := by
  refine Value.within_object.2 ⟨distinct_toFields h, fun p hp => ?_⟩
  rcases m.toFields_cases with ⟨-, he⟩ | ⟨before, after, hfields, he⟩
  · exact h.values p (he ▸ hp)
  · rw [he, List.perm_middle.mem_iff, List.mem_cons] at hp
    rcases hp with rfl | hp
    · exact Columns.within_toValue h.columns
    · exact h.values p (hfields ▸ hp)

/-- Two contents that are written alike and say the same. -/
structure Agree (m m' : Metadata) : Prop where
  written : m'.toValue = m.toValue
  fields : m'.fields = m.fields
  columns : m.columns.Agree m'.columns

/-- The written content is read as content that agrees with it. -/
theorem exists_ofValue_toValue {m : Metadata} (h : m.WellFormedWith P) :
    ∃ m', Metadata.ofValue m.toValue = .ok m' ∧ m.Agree m' := by
  rcases m.toFields_cases with ⟨hplace, he⟩ | ⟨before, after, hfields, he⟩
  · have hcolumns := columns_eq_nil_of_columnsPlace hplace
    refine ⟨⟨m.fields, none, []⟩, ?_, ?_, rfl, hcolumns ▸ .nil⟩
    · rw [toValue, he, Metadata.ofValue, Entries.find?_eq_none.2 h.noColumns]
    · rw [toValue, toValue, he]
      rfl
  · have hno := h.noColumns
    rw [hfields, Entries.keys_append, List.mem_append, not_or] at hno
    have hfind : Entries.find? columnsKey m.toFields = some m.columns.toValue :=
      Entries.find?_of_mem (distinct_toFields h) (he ▸ List.mem_append_right _ List.mem_cons_self)
    have hidx : (Entries.keys m.toFields).idxOf columnsKey = before.length := by
      rw [he, Entries.keys_append, List.idxOf_append, if_neg hno.1, Entries.keys_cons,
        List.idxOf_cons_self, Nat.zero_add, Entries.keys, List.length_map]
    obtain ⟨cs', hread, hagree⟩ := Columns.exists_ofValue_toValue h.columns
    have herase : Entries.erase columnsKey m.toFields = m.fields := by
      rw [he, hfields, Entries.erase_append_cons hno.1]
    refine ⟨⟨m.fields, some before.length, cs'⟩, ?_, ?_, rfl, hagree⟩
    · rw [toValue, Metadata.ofValue, hfind]
      dsimp only
      rw [hread, hidx, herase]
      rfl
    · rw [toValue, toValue, he]
      refine congrArg Value.object ?_
      simp [toFields, columnsPlace, hfields, hagree.toValue_eq]

/-- The columns that are read are read from the written columns. -/
theorem ofValue_columns_of_reread {m m' : Metadata} (h : m.WellFormedWith P)
    (hread : Metadata.ofValue m.toValue = .ok m') :
    Columns.ofValue m.columns.toValue = .ok m'.columns := by
  rw [toValue, Metadata.ofValue] at hread
  rcases m.toFields_cases with ⟨hplace, he⟩ | ⟨before, after, -, he⟩
  · rw [he, Entries.find?_eq_none.2 h.noColumns] at hread
    cases hread
    rw [columns_eq_nil_of_columnsPlace hplace]
    rfl
  · have hfind : Entries.find? columnsKey m.toFields = some m.columns.toValue :=
      Entries.find?_of_mem (distinct_toFields h) (he ▸ List.mem_append_right _ List.mem_cons_self)
    rw [hfind] at hread
    obtain ⟨cs, hcs, hm⟩ := map_eq_ok.1 hread
    rw [hcs, ← hm]

end ColumnMetadata.Metadata
