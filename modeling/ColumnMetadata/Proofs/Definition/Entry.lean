import ColumnMetadata.Proofs.Definition.Filling

/-!
# The entry of a column

A column that was read from an entry has the keys of the entry for its layout, and keeps what stands
under those that are not its own (`Column.Keeps`); filling it changes neither. So it is written as
the entry with its own values replaced, behind a description and tags that the entry did not have
(`Column.Keeps.toFields_eq`), in whatever order it keeps the others
(`Column.Keeps.toFields_of_perm`). Whatever is inherited, the other keys of the entry stay as they
are and in their order (`Columns.inheriting_keeps_entry`).
-/

namespace ColumnMetadata

namespace Column

/-- The column has all keys of an entry for its layout, and the values of those that are not its own.
-/
structure Keeps (fs : Entries Value) (c : Column) : Prop where
  layout : c.layout = Entries.keys fs
  extra : c.extra = Entries.erase tagsKey (Entries.erase descriptionKey fs)

/-- What an entry says for a column that is read from it. -/
theorem ofValue_object_eq_ok {name : String} {fs : Entries Value} {c : Column} :
    Column.ofValue name (.object fs) = .ok c ↔
      descriptionOf? name (Entries.find? descriptionKey fs) = .ok c.description ∧
      tagsOf? name (Entries.find? tagsKey fs) = .ok c.policyTags ∧ c.Keeps fs := by
  constructor
  · intro h
    obtain ⟨description, hdescription, h⟩ := bind_eq_ok.1 h
    obtain ⟨tags, htags, h⟩ := bind_eq_ok.1 h
    cases h
    exact ⟨hdescription, htags, rfl, rfl⟩
  · rintro ⟨hdescription, htags, hlayout, hextra⟩
    refine bind_eq_ok.2 ⟨_, hdescription, bind_eq_ok.2 ⟨_, htags, ?_⟩⟩
    rw [← hlayout, ← hextra]

theorem Keeps.extends {fs : Entries Value} {c c' : Column} (h : c.Keeps fs) (hc : c.Extends c') :
    c'.Keeps fs :=
  ⟨hc.layout.trans h.layout, hc.extra.trans h.extra⟩

/-! ## What is written in the places of an entry -/

/-- What is written in the place of an entry's value: the column's own values for those under its own
keys, and every other value as it is. -/
def rewritten (c : Column) (key : String) (v : Value) : Option Value :=
  if key = descriptionKey then some (.string c.description)
  else if key = tagsKey then c.tagsValue
  else some v

theorem rewritten_other (c : Column) {key : String} (hd : key ≠ descriptionKey) (ht : key ≠ tagsKey)
    (v : Value) : c.rewritten key v = some v := by
  rw [rewritten, if_neg hd, if_neg ht]

theorem isSome_rewritten (c : Column) (key : String) (v : Value) :
    (c.rewritten key v).isSome = (key != tagsKey || c.policyTags.isSome) := by
  unfold rewritten
  split
  · next hd =>
    have hne : (key != tagsKey) = true := bne_iff_ne.2 (hd ▸ tagsKey_ne_descriptionKey.symm)
    rw [hne]
    rfl
  · split
    · next ht =>
      rw [ht, bne_self_eq_false, Bool.false_or, tagsValue, Option.isSome_map]
    · next ht =>
      rw [bne_iff_ne.2 ht]
      rfl

/-- No key is left out but that of the tags, and only when there are none. -/
theorem keys_rewritten (c : Column) (fs : Entries Value) :
    Entries.keys (Entries.filterMapValues c.rewritten fs) =
      (Entries.keys fs).filter fun k => k != tagsKey || c.policyTags.isSome :=
  Entries.keys_filterMapValues fun e _ => c.isSome_rewritten e.1 e.2

/-- The keys in front: those of a description and of tags that the entry did not have. -/
theorem keys_leading (c : Column) :
    Entries.keys c.leading =
      (if descriptionKey ∉ c.layout ∧ c.description ≠ "" then [descriptionKey] else []) ++
      (if tagsKey ∉ c.layout ∧ c.policyTags.isSome then [tagsKey] else []) := by
  have htags : Entries.keys (c.tagsValue.map fun v => (tagsKey, v)).toList =
      if c.policyTags.isSome then [tagsKey] else [] := by
    unfold tagsValue
    cases c.policyTags <;> rfl
  unfold leading
  rw [Entries.keys_append, apply_ite Entries.keys, apply_ite Entries.keys, htags]
  refine congrArg₂ _ rfl ?_
  rw [ite_and]
  rfl

section Kept

variable {fs : Entries Value} {c : Column} (h : c.Keeps fs) (hfs : Entries.Distinct fs)

include h hfs in
theorem Keeps.placed_eq : c.placed = Entries.filterMapValues c.rewritten fs := by
  rw [placed, h.layout, Entries.keys, List.filterMap_map]
  refine List.filterMap_congr fun e he => ?_
  have hslot : c.slot e.1 = c.rewritten e.1 e.2 := by
    unfold slot rewritten
    split
    · rfl
    · next hd =>
      split
      · rfl
      · next ht =>
        rw [h.extra, Entries.find?_erase_of_ne (Ne.symm ht), Entries.find?_erase_of_ne (Ne.symm hd),
          Entries.find?_of_mem hfs he]
  rw [Function.comp_apply, hslot]

include h hfs in
/-- All other keys of the entry are written in their places. -/
theorem Keeps.contains_written {p : String × Value} (hp : p ∈ c.extra) :
    Entries.contains p.1 (c.leading ++ c.placed) = true := by
  rw [h.extra] at hp
  have hmem : p ∈ fs := Entries.mem_of_mem_erase (Entries.mem_of_mem_erase hp)
  have hne : p.1 ≠ tagsKey := by
    intro he
    exact Entries.not_mem_keys_erase (hfs.erase descriptionKey)
      (he ▸ Entries.mem_keys.2 ⟨p.2, hp⟩)
  have hkey : p.1 ∈ Entries.keys c.placed := by
    rw [h.placed_eq hfs, keys_rewritten, List.mem_filter, bne_iff_ne.2 hne]
    exact ⟨Entries.mem_keys.2 ⟨p.2, hmem⟩, rfl⟩
  rw [Entries.contains_iff, Entries.keys_append]
  exact List.mem_append_right _ hkey

include h hfs in
/-- The column is written as its entry with its own values in their places, behind what the entry did
not have. -/
theorem Keeps.toFields_eq :
    c.toFields = c.leading ++ Entries.filterMapValues c.rewritten fs := by
  have hrest : (c.extra.filter fun p => !Entries.contains p.1 (c.leading ++ c.placed)) = [] :=
    List.filter_eq_nil_iff.2 fun p hp => by simp [h.contains_written hfs hp]
  unfold toFields
  dsimp only
  rw [hrest, List.append_nil, h.placed_eq hfs]

include h hfs in
/-- Only the layout decides where the other keys are written: a column that keeps them in another
order is written in the same way. -/
theorem Keeps.toFields_of_perm {extra : Entries Value} (hextra : extra.Perm c.extra) :
    ({ c with extra } : Column).toFields = c.toFields := by
  have hdistinct : Entries.Distinct c.extra :=
    h.extra ▸ (hfs.erase descriptionKey).erase tagsKey
  have hplaced : ({ c with extra } : Column).placed = c.placed := by
    unfold placed slot
    simp only [Entries.find?_of_perm hdistinct hextra]
    rfl
  have hrest : ∀ es : Entries Value, es.Perm c.extra →
      (es.filter fun p => !Entries.contains p.1 (c.leading ++ c.placed)) = [] := by
    intro es hes
    refine List.filter_eq_nil_iff.2 fun p hp => ?_
    simp [h.contains_written hfs (hes.mem_iff.1 hp)]
  unfold toFields
  dsimp only
  rw [hplaced, hrest c.extra (.refl _)]
  exact congrArg _ (hrest extra hextra)

include h hfs in
theorem Keeps.keys_toFields :
    Entries.keys c.toFields =
      (if descriptionKey ∉ Entries.keys fs ∧ c.description ≠ "" then [descriptionKey] else []) ++
      (if tagsKey ∉ Entries.keys fs ∧ c.policyTags.isSome then [tagsKey] else []) ++
      (Entries.keys fs).filter fun k => k != tagsKey || c.policyTags.isSome := by
  rw [h.toFields_eq hfs, Entries.keys_append, keys_leading, keys_rewritten, h.layout]

include h hfs in
/-- What stands under a key that is not the column's own is written as it is. -/
theorem Keeps.find?_toFields {k : String} (hd : k ≠ descriptionKey) (ht : k ≠ tagsKey) :
    Entries.find? k c.toFields = Entries.find? k fs := by
  rw [h.toFields_eq hfs, Entries.find?_append, find?_leading, if_neg hd,
    if_neg fun hk => ht hk.1, Option.none_or, Entries.find?_filterMapValues hfs]
  cases Entries.find? k fs with
  | none => rfl
  | some v => exact c.rewritten_other hd ht v

include h hfs in
theorem Keeps.description_mem_keys :
    descriptionKey ∈ Entries.keys c.toFields ↔
      descriptionKey ∈ Entries.keys fs ∨ c.description ≠ "" := by
  have hne : (descriptionKey != tagsKey) = true := bne_iff_ne.2 tagsKey_ne_descriptionKey.symm
  rw [h.keys_toFields hfs, List.mem_append, List.mem_append, List.mem_filter, hne]
  by_cases hd : descriptionKey ∈ Entries.keys fs
  · simp [hd]
  · by_cases he : c.description = "" <;> simp [hd, he, tagsKey_ne_descriptionKey.symm]

include h hfs in
theorem Keeps.tags_mem_keys :
    tagsKey ∈ Entries.keys c.toFields ↔ c.policyTags.isSome = true := by
  rw [h.keys_toFields hfs, List.mem_append, List.mem_append, List.mem_filter, bne_self_eq_false,
    Bool.false_or]
  by_cases ht : tagsKey ∈ Entries.keys fs <;> simp [ht, tagsKey_ne_descriptionKey]

end Kept

end Column

namespace Columns

open Column (descriptionKey tagsKey)

/-- Inheriting does not disturb an entry. Behind any number of dependencies the entry has its keys in
their order, but for that of tags which are still not there, and in front of them those of a
description and of tags that it did not have and that were filled; what stands under a key that is
not the column's own is what stood there. So a description is written exactly when the entry had one
or the column has one now, and tags exactly when the column has them now. -/
theorem inheriting_keeps_entry {name : String} {fs : Entries Value} {c : Column}
    (hfs : Entries.Distinct fs) (hread : Column.ofValue name (.object fs) = .ok c) {cs : Columns}
    (hc : Entries.find? name cs = some c) (ds : List Columns) :
    ∃ c' written, Entries.find? name (ds.foldl (fun cs d => (inherit cs d).columns) cs) = some c' ∧
      c'.toValue = .object written ∧
      Entries.keys written =
        (if descriptionKey ∉ Entries.keys fs ∧ c'.description ≠ "" then [descriptionKey] else []) ++
        (if tagsKey ∉ Entries.keys fs ∧ c'.policyTags.isSome then [tagsKey] else []) ++
        ((Entries.keys fs).filter fun k => k != tagsKey || c'.policyTags.isSome) ∧
      (∀ k, k ≠ descriptionKey → k ≠ tagsKey → Entries.find? k written = Entries.find? k fs) ∧
      (descriptionKey ∈ Entries.keys written ↔
        descriptionKey ∈ Entries.keys fs ∨ c'.description ≠ "") ∧
      (tagsKey ∈ Entries.keys written ↔ c'.policyTags.isSome = true) := by
  obtain ⟨c', hc', hextends⟩ := grows_foldl_inherit cs ds name c hc
  have hkeeps : c'.Keeps fs := (Column.ofValue_object_eq_ok.1 hread).2.2.extends hextends
  exact ⟨c', c'.toFields, hc', rfl, hkeeps.keys_toFields hfs,
    fun k hd ht => hkeeps.find?_toFields hfs hd ht, hkeeps.description_mem_keys hfs,
    hkeeps.tags_mem_keys hfs⟩

/-- An entry without a description, whose tags are null and stand between other keys. -/
def sampleEntry : Entries Value :=
  [("displayName", .string "Id"), (tagsKey, .null), ("columns", .object [("n", .bool true)])]

/-- The column that is read from the entry. -/
def sampleColumn : Column :=
  ⟨"", none, [("displayName", .string "Id"), ("columns", .object [("n", .bool true)])],
    ["displayName", tagsKey, "columns"]⟩

/-- Two dependencies, of which the second one has a description. -/
def sampleSources : List Columns :=
  [[("id", ⟨"", some ["t"], [], []⟩)], [("id", .ofDescription "key"), ("b", sampleColumn)]]

/-- The description is new and goes in front, and the tags are filled where their key stood. -/
theorem inheriting_keeps_entry_sample :
    Entries.Distinct sampleEntry ∧
    Column.ofValue "id" (.object sampleEntry) = .ok sampleColumn ∧
    Entries.find? "id" [("a", .ofDescription ""), ("id", sampleColumn)] = some sampleColumn ∧
    ∃ c' written, c'.toValue = .object written ∧ c'.description = "key" ∧
      c'.policyTags = some ["t"] ∧
      Entries.find? "id" (sampleSources.foldl (fun cs d => (inherit cs d).columns)
        [("a", .ofDescription ""), ("id", sampleColumn)]) = some c' ∧
      Entries.keys written = [descriptionKey, "displayName", tagsKey, "columns"] := by
  have hfs : Entries.Distinct sampleEntry := by decide
  have hread : Column.ofValue "id" (.object sampleEntry) = .ok sampleColumn := by decide +kernel
  have hfind : Entries.find? "id" [("a", .ofDescription ""), ("id", sampleColumn)] =
    some sampleColumn := by decide +kernel
  have hfilled : Entries.find? "id" (sampleSources.foldl (fun cs d => (inherit cs d).columns)
      [("a", .ofDescription ""), ("id", sampleColumn)]) =
    some { sampleColumn with description := "key", policyTags := some ["t"] } := by decide +kernel
  obtain ⟨c', written, hc', hwritten, hkeys, -⟩ :=
    inheriting_keeps_entry hfs hread hfind sampleSources
  cases hfilled.symm.trans hc'
  exact ⟨hfs, hread, hfind, _, written, hwritten, rfl, rfl, hc', hkeys.trans (by decide +kernel)⟩

end Columns

end ColumnMetadata
