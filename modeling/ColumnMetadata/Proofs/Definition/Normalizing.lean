import ColumnMetadata.Definition.Metadata
import ColumnMetadata.Proofs.Definition.Entry
import ColumnMetadata.Proofs.Definition.Meaning

/-!
# The normal form of a block

Reading the object of a block and writing it again gives its normal form (`Metadata.normal`): in the
columns a bare string becomes an entry, a description that is null becomes empty, a single tag becomes
a list of one, and tags that are null are left out. Nothing else changes and no key moves. The normal
form of an entry is its own normal form (`Column.filterMapValues_normalValue`), and it is read as the
same column (`Column.exists_ofValue_normal`), so a block in normal form is read as the same content.
-/

namespace ColumnMetadata

namespace Column

def normalDescription : Value → Value
  | .null => .string ""
  | v => v

def normalTags : Value → Option Value
  | .null => none
  | .string t => some (.array [.string t])
  | v => some v

/-- The normal form of what stands under a key of an entry, if the key is kept. -/
def normalValue (key : String) (v : Value) : Option Value :=
  if key = descriptionKey then some (normalDescription v)
  else if key = tagsKey then normalTags v
  else some v

/-- The normal form of an entry. -/
def normal : Value → Value
  | .string s => .object [(descriptionKey, .string s)]
  | .object fs => .object (Entries.filterMapValues normalValue fs)
  | v => v

theorem normalValue_other {key : String} (hd : key ≠ descriptionKey) (ht : key ≠ tagsKey)
    (v : Value) : normalValue key v = some v := by
  rw [normalValue, if_neg hd, if_neg ht]

theorem normalDescription_idem (v : Value) :
    normalDescription (normalDescription v) = normalDescription v := by
  cases v <;> rfl

theorem normalTags_of_eq_some {v w : Value} (h : normalTags v = some w) :
    normalTags w = some w := by
  cases v <;> cases h <;> rfl

theorem normalValue_of_eq_some {key : String} {v w : Value} (h : normalValue key v = some w) :
    normalValue key w = some w := by
  unfold normalValue at h ⊢
  by_cases hd : key = descriptionKey
  · rw [if_pos hd] at h ⊢
    cases h
    rw [normalDescription_idem]
  · rw [if_neg hd] at h ⊢
    by_cases ht : key = tagsKey
    · rw [if_pos ht] at h ⊢
      exact normalTags_of_eq_some h
    · rw [if_neg ht]

/-- An entry in its normal form stays as it is. -/
theorem filterMapValues_normalValue (fs : Entries Value) :
    Entries.filterMapValues normalValue (Entries.filterMapValues normalValue fs) =
      Entries.filterMapValues normalValue fs :=
  Entries.filterMapValues_filterMapValues (g := normalValue)
    (fun _ _ _ => normalValue_of_eq_some) fs

/-! ## Reading the normal form of an entry -/

theorem descriptionOf?_normal (name : String) (v : Option Value) :
    descriptionOf? name (v.bind (normalValue descriptionKey)) = descriptionOf? name v := by
  cases v with
  | none => rfl
  | some v => cases v <;> rfl

theorem tagsOf?_normal (name : String) (v : Option Value) :
    tagsOf? name (v.bind (normalValue tagsKey)) = tagsOf? name v := by
  cases v with
  | none => rfl
  | some v => cases v <;> rfl

/-- The keys that are not the column's own stay. -/
theorem erase_filterMapValues_normalValue {fs : Entries Value} (hfs : Entries.Distinct fs) :
    Entries.erase tagsKey (Entries.erase descriptionKey (Entries.filterMapValues normalValue fs)) =
      Entries.erase tagsKey (Entries.erase descriptionKey fs) := by
  have hnormal := hfs.filterMapValues (g := normalValue)
  rw [Entries.erase_eq_filter (hnormal.erase _), Entries.erase_eq_filter hnormal,
    Entries.erase_eq_filter (hfs.erase _), Entries.erase_eq_filter hfs, List.filter_filter,
    List.filter_filter]
  refine Entries.filter_filterMapValues (q := fun k => k != tagsKey && k != descriptionKey)
    (fun k v hk => ?_) fs
  rw [Bool.and_eq_true, bne_iff_ne, bne_iff_ne] at hk
  exact normalValue_other hk.2 hk.1 v

/-! ## Writing what was read -/

theorem eq_map_of_tagsOfItems? {name : String} {vs : List Value} {tags : List String}
    (h : tagsOfItems? name vs = .ok tags) : vs = tags.map .string := by
  induction vs generalizing tags with
  | nil =>
    cases h
    rfl
  | cons v vs ih =>
    cases v with
    | string t =>
      obtain ⟨rest, hrest, rfl⟩ := map_eq_ok.1 h
      rw [List.map_cons, ← ih hrest]
    | _ => cases h

/-- The description is written as the normal form of what it was read from. -/
theorem normalDescription_of_read {name : String} {v : Value} {s : String}
    (h : descriptionOf? name (some v) = .ok s) : normalDescription v = .string s := by
  cases v with
  | null =>
    cases h
    rfl
  | string s =>
    cases h
    rfl
  | _ => cases h

/-- The tags are written as the normal form of what they were read from. -/
theorem normalTags_of_read {name : String} {v : Value} {tags : Option (List String)}
    (h : tagsOf? name (some v) = .ok tags) :
    normalTags v = tags.map fun ts => .array (ts.map .string) := by
  cases v with
  | null =>
    cases h
    rfl
  | string t =>
    cases h
    rfl
  | array vs =>
    obtain ⟨ts, hts, he⟩ := map_eq_ok.1 h
    rw [eq_map_of_tagsOfItems? hts, ← he]
    rfl
  | _ => cases h

/-- An entry that is read is written as its normal form. -/
theorem toFields_of_ofValue {name : String} {fs : Entries Value} {c : Column}
    (hfs : Entries.Distinct fs) (h : Column.ofValue name (.object fs) = .ok c) :
    c.toFields = Entries.filterMapValues normalValue fs := by
  obtain ⟨hdescription, htags, hkeeps⟩ := ofValue_object_eq_ok.1 h
  have hleading : c.leading = [] := by
    have hnew : ¬ (descriptionKey ∉ c.layout ∧ c.description ≠ "") := by
      rintro ⟨hnot, hne⟩
      rw [hkeeps.layout, ← Entries.find?_eq_none] at hnot
      rw [hnot] at hdescription
      exact hne (Except.ok.inj hdescription).symm
    unfold leading
    rw [if_neg hnew, List.nil_append]
    split
    · next hnot =>
      rw [hkeeps.layout, ← Entries.find?_eq_none] at hnot
      rw [hnot] at htags
      rw [tagsValue, ← Except.ok.inj htags]
      rfl
    · rfl
  rw [hkeeps.toFields_eq hfs, hleading, List.nil_append]
  refine Entries.filterMapValues_congr fun e he => ?_
  have hfind := Entries.find?_of_mem hfs he
  unfold rewritten normalValue
  split
  · next hd =>
    rw [← hd, hfind] at hdescription
    rw [normalDescription_of_read hdescription]
  · split
    · next ht =>
      rw [← ht, hfind] at htags
      exact (normalTags_of_read htags).symm
    · rfl

theorem toValue_of_ofValue {name : String} {v : Value} (hv : v.Keyed) {c : Column}
    (h : Column.ofValue name v = .ok c) : c.toValue = normal v := by
  cases v with
  | string s =>
    cases h
    rfl
  | object fs => exact congrArg Value.object (toFields_of_ofValue (Value.keyed_object.1 hv).1 h)
  | _ => cases h

theorem same_of_eq {c c' : Column} (hdescription : c'.description = c.description)
    (htags : c'.policyTags = c.policyTags) (hextra : c'.extra = c.extra)
    (hkeyed : (Value.object c.extra).Keyed) : c.same c' = true := by
  rw [same, hdescription, htags, hextra, hkeyed.sameValue_self, beq_self_eq_true, beq_self_eq_true]
  rfl

/-- The normal form of an entry is read as an equal column, which is written as the normal form again.
-/
theorem exists_ofValue_normal {name : String} {v : Value} (hv : v.Keyed) {c : Column}
    (h : Column.ofValue name v = .ok c) :
    ∃ c', Column.ofValue name (normal v) = .ok c' ∧ c'.toValue = c.toValue ∧ c.same c' = true := by
  cases v with
  | string s =>
    cases h
    exact ⟨ofDescription s, rfl, rfl,
      same_of_eq rfl rfl rfl (Value.keyed_object.2 ⟨.nil, List.forall_mem_nil _⟩)⟩
  | object fs =>
    obtain ⟨hfs, hvalues⟩ := Value.keyed_object.1 hv
    obtain ⟨hdescription, htags, hkeeps⟩ := ofValue_object_eq_ok.1 h
    have hextra : (Value.object c.extra).Keyed := by
      rw [hkeeps.extra]
      refine Value.keyed_object.2 ⟨(hfs.erase _).erase _, fun p hp => ?_⟩
      exact hvalues p (Entries.mem_of_mem_erase (Entries.mem_of_mem_erase hp))
    let c' : Column := { c with layout := Entries.keys (Entries.filterMapValues normalValue fs) }
    have hread : Column.ofValue name (normal (.object fs)) = .ok c' := by
      refine ofValue_object_eq_ok.2 ⟨?_, ?_, rfl, ?_⟩
      · rw [Entries.find?_filterMapValues hfs, descriptionOf?_normal, hdescription]
      · rw [Entries.find?_filterMapValues hfs, tagsOf?_normal, htags]
      · rw [erase_filterMapValues_normalValue hfs, ← hkeeps.extra]
    refine ⟨c', hread, congrArg Value.object ?_, same_of_eq rfl rfl rfl hextra⟩
    rw [toFields_of_ofValue hfs h, toFields_of_ofValue hfs.filterMapValues hread,
      filterMapValues_normalValue]
  | _ => cases h

end Column

namespace Columns

/-- The normal form of the columns: each entry in its own. -/
def normal : Value → Value
  | .object fs => .object (Entries.mapValues Column.normal fs)
  | v => v

/-- Columns that are read are written in their normal form. -/
theorem toValue_of_ofFields {fs : Entries Value} (hfs : ∀ p ∈ fs, p.2.Keyed) {cs : Columns}
    (h : ofFields fs = .ok cs) : cs.toValue = normal (.object fs) := by
  refine congrArg Value.object ?_
  induction fs generalizing cs with
  | nil =>
    cases h
    rfl
  | cons p fs ih =>
    obtain ⟨hp, hfs⟩ := List.forall_mem_cons.1 hfs
    obtain ⟨c, rest, hc, hrest, rfl⟩ := ofFields_cons_eq_ok.1 h
    exact congrArg₂ List.cons (congrArg (Prod.mk p.1) (Column.toValue_of_ofValue hp hc))
      (ih hfs hrest)

/-- The normal form of columns is read as equal columns, which are written as the normal form again.
-/
theorem exists_ofFields_normal {fs : Entries Value} (hfs : ∀ p ∈ fs, p.2.Keyed) {cs : Columns}
    (h : ofFields fs = .ok cs) :
    ∃ cs', ofFields (Entries.mapValues Column.normal fs) = .ok cs' ∧ cs'.toValue = cs.toValue ∧
      cs.Same cs' := by
  induction fs generalizing cs with
  | nil =>
    cases h
    exact ⟨[], rfl, rfl, .nil⟩
  | cons p fs ih =>
    obtain ⟨hp, hfs⟩ := List.forall_mem_cons.1 hfs
    obtain ⟨c, rest, hc, hrest, rfl⟩ := ofFields_cons_eq_ok.1 h
    obtain ⟨c', hc', hwritten, hsame⟩ := Column.exists_ofValue_normal hp hc
    obtain ⟨rest', hrest', hwrittens, hsames⟩ := ih hfs hrest
    refine ⟨(p.1, c') :: rest', ofFields_cons_eq_ok.2 ⟨c', rest', hc', hrest', rfl⟩, ?_,
      .cons ⟨rfl, hsame⟩ hsames⟩
    exact congrArg Value.object (congrArg₂ List.cons (congrArg (Prod.mk p.1) hwritten)
      (Value.object.inj hwrittens))

end Columns

namespace Metadata

/-- The normal form of a block's object: that of the columns under their key, and every other value
as it is. -/
def normal : Value → Value
  | .object fs =>
    .object (fs.map fun p => (p.1, if p.1 = columnsKey then Columns.normal p.2 else p.2))
  | v => v

/-- Values that do not stand under the key of the columns are not touched. -/
theorem normalFields_eq_self {fs : Entries Value} (h : columnsKey ∉ Entries.keys fs) :
    (fs.map fun p => (p.1, if p.1 = columnsKey then Columns.normal p.2 else p.2)) = fs := by
  refine (List.map_congr_left fun p hp => ?_).trans (List.map_id fs)
  have hne : p.1 ≠ columnsKey := by
    rintro he
    exact h (he ▸ Entries.mem_keys.2 ⟨p.2, hp⟩)
  rw [if_neg hne]
  rfl

section Placed

variable {before after : Entries Value} (hbefore : columnsKey ∉ Entries.keys before)

include hbefore in
/-- Columns that stand between other fields. -/
theorem ofValue_placed (w : Value) :
    Metadata.ofValue (.object (before ++ (columnsKey, w) :: after)) =
      (Columns.ofValue w).map fun cs => ⟨before ++ after, some before.length, cs⟩ := by
  have hfind : Entries.find? columnsKey (before ++ (columnsKey, w) :: after) = some w := by
    rw [Entries.find?_append, Entries.find?_eq_none.2 hbefore, Option.none_or, Entries.find?,
      if_pos rfl]
  have hidx : (Entries.keys (before ++ (columnsKey, w) :: after)).idxOf columnsKey =
      before.length := by
    rw [Entries.keys_append, List.idxOf_append, if_neg hbefore, Entries.keys_cons,
      List.idxOf_cons_self, Nat.zero_add, Entries.keys, List.length_map]
  rw [Metadata.ofValue, hfind, hidx, Entries.erase_append_cons hbefore]

theorem toFields_placed (cs : Columns) :
    toFields ⟨before ++ after, some before.length, cs⟩ =
      before ++ (columnsKey, cs.toValue) :: after := by
  simp [toFields, columnsPlace]

end Placed

/-- The content of a block is written as the normal form of the object that it was read from: with
its keys in their order, every value but that of the columns as it was, and the columns with their
names in their order and each entry in its normal form. The normal form is read again, as an equal
content that is written as the normal form, so a second time nothing changes. -/
theorem writes_normal_form {v : Value} (hv : v.Keyed) {m : Metadata}
    (h : Metadata.ofValue v = .ok m) :
    m.toValue = normal v ∧
    ∃ m', Metadata.ofValue m.toValue = .ok m' ∧ m'.toValue = m.toValue ∧
      m'.fields = m.fields ∧ m'.columnsAt = m.columnsAt ∧ m.columns.Same m'.columns := by
  cases v with
  | object fs =>
    obtain ⟨hfs, hvalues⟩ := Value.keyed_object.1 hv
    cases hfind : Entries.find? columnsKey fs with
    | none =>
      have hm : m = ⟨fs, none, []⟩ := by
        rw [Metadata.ofValue, hfind] at h
        exact (Except.ok.inj h).symm
      subst hm
      refine ⟨?_, _, h, rfl, rfl, rfl, .nil⟩
      rw [normal, normalFields_eq_self (Entries.find?_eq_none.1 hfind)]
      rfl
    | some w =>
      obtain ⟨before, after, rfl, hbefore⟩ := Entries.exists_append_of_find? hfind
      have hafter : columnsKey ∉ Entries.keys after := by
        have hrest := (Entries.distinct_append.1 hfs).2.1
        exact (List.nodup_cons.1 hrest).1
      rw [ofValue_placed hbefore] at h
      obtain ⟨cs, hcs, rfl⟩ := map_eq_ok.1 h
      cases w with
      | object gs =>
        have hgs : ∀ p ∈ gs, p.2.Keyed :=
          (Value.keyed_object.1 (hvalues _ (List.mem_append_right _ List.mem_cons_self))).2
        have hcolumns : cs.toValue = Columns.normal (.object gs) :=
          Columns.toValue_of_ofFields hgs hcs
        obtain ⟨cs', hcs', hwritten, hsame⟩ := Columns.exists_ofFields_normal hgs hcs
        refine ⟨?_, ⟨before ++ after, some before.length, cs'⟩, ?_, ?_, rfl, rfl, hsame⟩
        · rw [toValue, toFields_placed, hcolumns, normal, List.map_append, List.map_cons,
            normalFields_eq_self hbefore, normalFields_eq_self hafter, if_pos rfl]
        · rw [toValue, toFields_placed, hcolumns, ofValue_placed hbefore, Columns.normal,
            Columns.ofValue, hcs']
          rfl
        · rw [toValue, toValue, toFields_placed, toFields_placed, hwritten]
      | _ => cases hcs
  | _ => cases h

/-- A block with its columns between other fields: a bare string, null in the places of a description
and of tags, a single tag, and an entry without keys. -/
def sampleBlock : Value :=
  .object [("type", .string "view"),
    (columnsKey, .object [("a", .string "x"),
      ("b", .object [("meta", .null), ("bigqueryPolicyTags", .string "t"), ("description", .null)]),
      ("c", .object [("bigqueryPolicyTags", .null), ("columns", .object [("n", .bool true)])]),
      ("d", .object [])]),
    ("tags", .array [.null])]

def sampleNormal : Value :=
  .object [("type", .string "view"),
    (columnsKey, .object [("a", .object [("description", .string "x")]),
      ("b", .object [("meta", .null), ("bigqueryPolicyTags", .array [.string "t"]),
        ("description", .string "")]),
      ("c", .object [("columns", .object [("n", .bool true)])]),
      ("d", .object [])]),
    ("tags", .array [.null])]

theorem writes_normal_form_sample :
    sampleBlock.Keyed ∧ ∃ m, Metadata.ofValue sampleBlock = .ok m ∧ m.toValue = sampleNormal ∧
      ∃ m', Metadata.ofValue sampleNormal = .ok m' ∧ m'.toValue = sampleNormal ∧
        m'.fields = m.fields ∧ m'.columnsAt = m.columnsAt ∧ m.columns.Same m'.columns := by
  have hkeyed : sampleBlock.Keyed := by decide +kernel
  obtain ⟨m, hm, -⟩ : ∃ m, Metadata.ofValue sampleBlock = .ok m ∧ m.columnsAt.isSome = true :=
    exists_ok_of_any (by decide +kernel)
  have hnormal : normal sampleBlock = sampleNormal := by decide +kernel
  obtain ⟨hwritten, hagain⟩ := writes_normal_form hkeyed hm
  rw [hwritten, hnormal] at hagain
  exact ⟨hkeyed, m, hm, hwritten.trans hnormal, hagain⟩

end Metadata

end ColumnMetadata
