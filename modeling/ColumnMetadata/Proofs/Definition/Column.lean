import ColumnMetadata.Definition.Column
import ColumnMetadata.Literal.Parse
import ColumnMetadata.Proofs.Basic
import ColumnMetadata.Proofs.Value.Shape

/-!
# Columns are read back

A column that was read, or filled from others that were, is well formed (`Column.WellFormedWith`):
its other keys are distinct and are neither that of the description nor that of the tags. The entry
that is written for it (`find?_toFields`) has distinct keys, and reading the entry gives a column
that is written in the same way (`Column.exists_ofValue_toValue`). The column read back need not be
the same one: keys that the entry did not have before are in its layout now.
-/

namespace ColumnMetadata

open Literal (maxDepth)

/-- How many more containers may be opened inside the value of one of a column's own keys: the
block, the columns and the column's entry are open there. -/
def columnRoom : Nat := maxDepth - 3

namespace Column

/-- What reading an entry ensures and filling keeps, when the numbers in it are of one kind. -/
structure WellFormedWith (P : Number → Prop) (c : Column) : Prop where
  layout : c.layout.Nodup
  extra : Entries.Distinct c.extra
  noDescription : descriptionKey ∉ Entries.keys c.extra
  noTags : tagsKey ∉ Entries.keys c.extra
  values : ∀ p ∈ c.extra, p.2.Within P columnRoom

/-- A well-formed column whose numbers are read back as themselves. -/
abbrev WellFormed (c : Column) : Prop := c.WellFormedWith Number.Rereads

variable {P : Number → Prop}

theorem WellFormedWith.ofDescription (s : String) :
    (Column.ofDescription s).WellFormedWith P where
  layout := by simp [Column.ofDescription]
  extra := Entries.distinct_nil
  noDescription := nofun
  noTags := nofun
  values := nofun

/-- Descriptions and tags do not matter for being well formed. -/
theorem WellFormedWith.of_eq {c c' : Column} (h : c.WellFormedWith P) (hextra : c'.extra = c.extra)
    (hlayout : c'.layout = c.layout) : c'.WellFormedWith P where
  layout := hlayout ▸ h.layout
  extra := hextra ▸ h.extra
  noDescription := hextra ▸ h.noDescription
  noTags := hextra ▸ h.noTags
  values := hextra ▸ h.values

theorem tagsKey_ne_descriptionKey : tagsKey ≠ descriptionKey := by decide

/-- A column that was read is well formed. -/
theorem WellFormedWith.of_ofValue {name : String} {v : Value} {c : Column}
    (h : Column.ofValue name v = .ok c) (hv : v.Within P (columnRoom + 1)) :
    c.WellFormedWith P := by
  unfold Column.ofValue at h
  split at h
  · cases h
    exact .ofDescription _
  · next fields =>
    obtain ⟨description, -, h⟩ := bind_eq_ok.1 h
    obtain ⟨tags, -, h⟩ := bind_eq_ok.1 h
    cases h
    obtain ⟨hkeys, hfields⟩ := Value.within_object.1 hv
    have hextra := hkeys.erase descriptionKey
    refine ⟨hkeys, hextra.erase tagsKey, fun hk => ?_, Entries.not_mem_keys_erase hextra,
      fun p hp => hfields p (Entries.mem_of_mem_erase (Entries.mem_of_mem_erase hp))⟩
    obtain ⟨w, hw⟩ := Entries.mem_keys.1 hk
    exact Entries.not_mem_keys_erase hkeys (Entries.mem_keys.2 ⟨w, Entries.mem_of_mem_erase hw⟩)
  · cases h

/-! ## The written entry -/

/-- What stands under a key in the places that the entry had. -/
theorem find?_placed (c : Column) (k : String) :
    Entries.find? k c.placed = if k ∈ c.layout then c.slot k else none := by
  unfold placed
  induction c.layout with
  | nil => rfl
  | cons j ks ih =>
    rw [List.filterMap_cons]
    cases hslot : c.slot j with
    | none =>
      by_cases hj : k = j
      · subst hj
        simp [ih, hslot]
      · simp [ih, hj]
    | some v =>
      by_cases hj : k = j
      · subst hj
        simp [Entries.find?, hslot]
      · simp [Entries.find?, ih, hj, Ne.symm hj]

/-- What stands in front: a description or tags that the entry did not have. -/
theorem find?_leading (c : Column) (k : String) :
    Entries.find? k c.leading =
      if k = descriptionKey then
        if descriptionKey ∉ c.layout ∧ c.description ≠ "" then some (.string c.description) else none
      else if k = tagsKey ∧ tagsKey ∉ c.layout then c.tagsValue
      else none := by
  have hne := tagsKey_ne_descriptionKey
  have htags : Entries.find? k (c.tagsValue.map fun v => (tagsKey, v)).toList =
      if k = tagsKey then c.tagsValue else none := by
    by_cases hk : k = tagsKey
    · subst hk
      cases c.tagsValue <;> simp [Entries.find?]
    · cases c.tagsValue <;> simp [Entries.find?, hk, Ne.symm hk]
  unfold leading
  rw [Entries.find?_append, apply_ite (Entries.find? k), apply_ite (Entries.find? k), htags]
  by_cases hk : k = descriptionKey
  · subst hk
    simp [Entries.find?, Ne.symm hne]
  · by_cases ht : k = tagsKey
    · simp [Entries.find?, hne, Ne.symm hne, ht]
    · simp [Entries.find?, hk, Ne.symm hk, ht]

theorem find?_filter_new {α : Type} (written es : Entries α) (k : String) :
    Entries.find? k (es.filter fun p => !Entries.contains p.1 written) =
      if Entries.contains k written then none else Entries.find? k es := by
  induction es with
  | nil => simp [Entries.find?]
  | cons p es ih =>
    obtain ⟨j, v⟩ := p
    rw [List.filter_cons]
    by_cases hj : j = k
    · subst hj
      by_cases hw : Entries.contains j written
      · simp [hw, ih]
      · simp [hw, Entries.find?]
    · by_cases hw : Entries.contains j written <;> simp [hw, ih, Entries.find?, hj]

/-- What the written entry has under each key. -/
theorem find?_toFields {c : Column} (h : c.WellFormedWith P) (k : String) :
    Entries.find? k c.toFields =
      if k = descriptionKey then
        if descriptionKey ∈ c.layout ∨ c.description ≠ "" then some (.string c.description) else none
      else if k = tagsKey then c.tagsValue
      else Entries.find? k c.extra := by
  have hne := tagsKey_ne_descriptionKey
  have hwritten : Entries.find? k (c.leading ++ c.placed) =
      if k = descriptionKey then
        if descriptionKey ∈ c.layout ∨ c.description ≠ "" then some (.string c.description) else none
      else if k = tagsKey then c.tagsValue
      else if k ∈ c.layout then Entries.find? k c.extra else none := by
    rw [Entries.find?_append, find?_leading, find?_placed]
    by_cases hd : k = descriptionKey
    · subst hd
      by_cases hl : descriptionKey ∈ c.layout <;> by_cases he : c.description = "" <;>
        simp [slot, hl, he]
    · by_cases ht : k = tagsKey
      · subst ht
        by_cases hl : tagsKey ∈ c.layout <;> simp [slot, hl, hne]
      · simp [slot, hd, ht]
  unfold toFields
  dsimp only
  rw [Entries.find?_append, find?_filter_new, Entries.contains, hwritten]
  by_cases hd : k = descriptionKey
  · subst hd
    rw [if_pos rfl, if_pos rfl, Entries.find?_eq_none.2 h.noDescription, ite_self, Option.or_none]
  · by_cases ht : k = tagsKey
    · subst ht
      rw [if_neg hd, if_pos rfl, if_neg hd, if_pos rfl, Entries.find?_eq_none.2 h.noTags, ite_self,
        Option.or_none]
    · rw [if_neg hd, if_neg ht, if_neg hd, if_neg ht]
      by_cases hl : k ∈ c.layout
      · rw [if_pos hl]
        cases Entries.find? k c.extra <;> rfl
      · rw [if_neg hl]
        rfl

theorem keys_placed (c : Column) :
    Entries.keys c.placed = c.layout.filter fun k => (c.slot k).isSome := by
  unfold placed
  induction c.layout with
  | nil => rfl
  | cons k ks ih =>
    rw [List.filterMap_cons, List.filter_cons]
    cases c.slot k with
    | none => simpa using ih
    | some v => simpa using ih

/-- A key in front is that of the description or of the tags, and the entry did not have it. -/
theorem mem_keys_leading {c : Column} {k : String} (h : k ∈ Entries.keys c.leading) :
    k ∉ c.layout := by
  have hk := Entries.find?_isSome.2 h
  rw [find?_leading] at hk
  split at hk
  · next he =>
    split at hk
    · next hl => exact he ▸ hl.1
    · cases hk
  · split at hk
    · next hl => exact hl.1 ▸ hl.2
    · cases hk

theorem distinct_leading (c : Column) : Entries.Distinct c.leading := by
  unfold leading
  refine Entries.distinct_append.2 ⟨?_, ?_, ?_⟩
  · split
    · exact Entries.distinct_singleton _
    · exact Entries.distinct_nil
  · split
    · cases c.tagsValue with
      | none => exact Entries.distinct_nil
      | some v => exact Entries.distinct_singleton _
    · exact Entries.distinct_nil
  · intro k hk hk'
    have hd : k = descriptionKey := by
      split at hk
      · exact List.mem_singleton.1 hk
      · cases hk
    have ht : k = tagsKey := by
      split at hk'
      · cases htags : c.tagsValue with
        | none => simp [htags] at hk'
        | some v => simpa [htags] using hk'
      · cases hk'
    exact tagsKey_ne_descriptionKey (ht.symm.trans hd)

/-- No key is written twice. -/
theorem distinct_toFields {c : Column} (h : c.WellFormedWith P) : Entries.Distinct c.toFields := by
  refine Entries.distinct_append.2 ⟨Entries.distinct_append.2 ⟨distinct_leading c, ?_, ?_⟩, ?_, ?_⟩
  · rw [Entries.Distinct, keys_placed]
    exact h.layout.filter _
  · intro k hk hk'
    rw [keys_placed] at hk'
    exact mem_keys_leading hk (List.mem_filter.1 hk').1
  · exact h.extra.sublist List.filter_sublist
  · intro k hk hk'
    obtain ⟨v, hv⟩ := Entries.mem_keys.1 hk'
    have hnew := (List.mem_filter.1 hv).2
    rw [Entries.contains_iff.2 hk] at hnew
    cases hnew

/-! ## Reading the written entry -/

theorem tagsOfItems?_strings (name : String) (tags : List String) :
    tagsOfItems? name (tags.map .string) = .ok tags := by
  induction tags with
  | nil => rfl
  | cons t tags ih => rw [List.map_cons, tagsOfItems?, ih]; rfl

section Rewritten

variable {c : Column} {fs : Entries Value} (hfs : Entries.Distinct fs)
  (hlayout : c.layout = Entries.keys fs)
  (hslot : ∀ k ∈ Entries.keys fs, c.slot k = Entries.find? k fs)

include hfs hlayout hslot in
theorem placed_eq : c.placed = fs := by
  have hkeys : Entries.keys c.placed = Entries.keys fs := by
    rw [keys_placed, hlayout, List.filter_eq_self]
    intro k hk
    rw [hslot k hk]
    exact Entries.find?_isSome.2 hk
  refine Entries.ext_of_find? (by rw [Entries.Distinct, hkeys]; exact hfs) hkeys fun k hk => ?_
  rw [hkeys] at hk
  rw [find?_placed, hlayout, if_pos hk, hslot k hk]

include hfs hlayout hslot in
/-- A column that has the keys of some fields for its layout, and says what the fields say, is
written as these fields. -/
theorem toFields_eq (hdescription : descriptionKey ∉ Entries.keys fs → c.description = "")
    (htags : tagsKey ∉ Entries.keys fs → c.policyTags = none)
    (hextra : ∀ p ∈ c.extra, p.1 ∈ Entries.keys fs) : c.toFields = fs := by
  have hleading : c.leading = [] := by
    unfold leading tagsValue
    rw [hlayout, if_neg (fun h => h.2 (hdescription h.1))]
    split
    · next h => rw [htags h]; rfl
    · rfl
  have hrest : c.extra.filter (fun p => !Entries.contains p.1 fs) = [] := by
    rw [List.filter_eq_nil_iff]
    intro p hp
    rw [Entries.contains_iff.2 (hextra p hp)]
    exact Bool.false_ne_true
  unfold toFields
  dsimp only
  rw [hleading, placed_eq hfs hlayout hslot, List.nil_append, hrest, List.append_nil]

end Rewritten

/-- Two columns that are written alike and say the same. -/
structure Agree (c c' : Column) : Prop where
  written : c'.toValue = c.toValue
  description : c'.description = c.description
  policyTags : c'.policyTags = c.policyTags

/-- The column that is read from the written entry: its layout has all keys of the entry. -/
def reread (c : Column) : Column :=
  ⟨c.description, c.policyTags, Entries.erase tagsKey (Entries.erase descriptionKey c.toFields),
    Entries.keys c.toFields⟩

section Reread

variable {c : Column} (h : c.WellFormedWith P)

include h in
theorem descriptionOf?_toFields (name : String) :
    descriptionOf? name (Entries.find? descriptionKey c.toFields) = .ok c.description := by
  rw [find?_toFields h, if_pos rfl]
  split
  · rfl
  · next hnone =>
    rw [not_or, ne_eq, Classical.not_not] at hnone
    rw [hnone.2]
    rfl

include h in
theorem tagsOf?_toFields (name : String) :
    tagsOf? name (Entries.find? tagsKey c.toFields) = .ok c.policyTags := by
  rw [find?_toFields h, if_neg tagsKey_ne_descriptionKey, if_pos rfl, tagsValue]
  cases c.policyTags with
  | none => rfl
  | some tags =>
    rw [Option.map_some, tagsOf?, tagsOfItems?_strings]
    rfl

include h in
theorem ofValue_toValue (name : String) : Column.ofValue name c.toValue = .ok c.reread := by
  rw [toValue, Column.ofValue, descriptionOf?_toFields h, tagsOf?_toFields h]
  rfl

include h in
/-- The column that is read says under each key of the entry what the entry says. -/
theorem slot_reread {k : String} (hk : k ∈ Entries.keys c.toFields) :
    c.reread.slot k = Entries.find? k c.toFields := by
  have hfind := find?_toFields h
  have hsome := Entries.find?_isSome.2 hk
  unfold slot
  by_cases hd : k = descriptionKey
  · subst hd
    rw [hfind, if_pos rfl] at hsome ⊢
    split at hsome
    · next hl => rw [if_pos rfl, if_pos hl]; rfl
    · cases hsome
  · by_cases ht : k = tagsKey
    · subst ht
      rw [hfind, if_neg hd, if_pos rfl, if_neg hd, if_pos rfl]
      rfl
    · rw [if_neg hd, if_neg ht, reread, Entries.find?_erase_of_ne (Ne.symm ht),
        Entries.find?_erase_of_ne (Ne.symm hd)]

include h in
theorem toFields_reread : c.reread.toFields = c.toFields := by
  have hfind := find?_toFields h
  refine toFields_eq (distinct_toFields h) rfl (fun k hk => slot_reread h hk) (fun hk => ?_)
    (fun hk => ?_) fun p hp => ?_
  · have hnone := Entries.find?_eq_none.2 hk
    rw [hfind, if_pos rfl] at hnone
    split at hnone
    · cases hnone
    · next hl =>
      rw [not_or, ne_eq, Classical.not_not] at hl
      exact hl.2
  · have hnone := Entries.find?_eq_none.2 hk
    rw [hfind, if_neg tagsKey_ne_descriptionKey, if_pos rfl, tagsValue,
      Option.map_eq_none_iff] at hnone
    exact hnone
  · exact Entries.mem_keys.2 ⟨p.2, Entries.mem_of_mem_erase (Entries.mem_of_mem_erase hp)⟩

include h in
/-- The written entry is read as a column that agrees with the one written. -/
theorem exists_ofValue_toValue (name : String) :
    ∃ c', Column.ofValue name c.toValue = .ok c' ∧ c.Agree c' :=
  ⟨c.reread, ofValue_toValue h name, congrArg Value.object (toFields_reread h), rfl, rfl⟩

end Reread

/-- The written entry fits into its place, with numbers of the same kind. -/
theorem within_toValue {c : Column} (h : c.WellFormedWith P) :
    c.toValue.Within P (columnRoom + 1) := by
  refine Value.within_object.2 ⟨distinct_toFields h, fun p hp => ?_⟩
  have hfind := Entries.find?_of_mem (distinct_toFields h) hp
  rw [find?_toFields h] at hfind
  split at hfind
  · split at hfind
    · rw [← Option.some.inj hfind]
      exact Value.within_string _
    · cases hfind
  · split at hfind
    · obtain ⟨tags, -, he⟩ := Option.map_eq_some_iff.1 hfind
      rw [← he]
      refine Value.within_array fun v hv => ?_
      obtain ⟨t, -, rfl⟩ := List.mem_map.1 hv
      exact Value.within_string t
    · exact h.values p (Entries.mem_of_find? hfind)

end Column

end ColumnMetadata
