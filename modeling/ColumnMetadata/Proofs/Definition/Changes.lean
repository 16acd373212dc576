import ColumnMetadata.Proofs.Definition.Steps

/-!
# What filling says it changed

The changes that filling reports are what became of the columns. The added names are those that are
new, in the order in which they were appended (`Columns.keys_after`). A name is listed for its
description, or for its tags, exactly when at some point there was a column of the name without any
and there is one with some in the end (`Columns.Gained`). A column that is in no list says what it
said, and if there are no changes at all the columns are the same ones
(`Columns.fill_tells_changes`).
-/

namespace ColumnMetadata

/-- What a column gets neither of it has already. -/
theorem Column.Extends.eq_of_not_lacks {c c' : Column} (h : c.Extends c')
    (hdescription : c.lacksDescription c' = false) (htags : c.lacksTags c' = false) : c' = c := by
  have hsame : c'.description = c.description := by
    cases hempty : c.description.isEmpty with
    | false => exact h.description hempty
    | true =>
      rw [lacksDescription, hempty, Bool.true_and, Bool.not_eq_false'] at hdescription
      rw [String.isEmpty_iff.1 hempty, String.isEmpty_iff.1 hdescription]
  have hsame' : c'.policyTags = c.policyTags := by
    cases hnone : c.policyTags.isNone with
    | false => exact h.policyTags hnone
    | true =>
      rw [lacksTags, hnone, Bool.true_and, Option.isSome_eq_false_iff] at htags
      rw [Option.isNone_iff_eq_none.1 hnone, Option.isNone_iff_eq_none.1 htags]
  rw [Column.mk.injEq]
  exact ⟨hsame, hsame', h.extra, h.layout⟩

/-- What is there when a column has something is still there when it is extended. -/
def Column.Kept (has : Column → Bool) : Prop :=
  ∀ {c c' : Column}, c.Extends c' → has c = true → has c' = true

theorem Column.kept_description : Kept fun c => !c.description.isEmpty := by
  intro c c' h hhas
  dsimp only at hhas ⊢
  rwa [h.description (by simpa using hhas)]

theorem Column.kept_policyTags : Kept fun c => c.policyTags.isSome := by
  intro c c' h hhas
  dsimp only at hhas ⊢
  rwa [h.policyTags (by simpa using hhas)]

namespace Columns

variable {cs : Columns} {steps : List FillStep} {s : FillStep}

/-! ## One more step -/

theorem after_concat_of_none (h : s.write? (cs.after steps).columns = none) :
    cs.after (steps ++ [s]) = cs.after steps := by
  rw [after_concat, Filled.step_eq, h]

theorem after_concat_of_some {name : String} {c : Column}
    (h : s.write? (cs.after steps).columns = some (name, c)) :
    cs.after (steps ++ [s]) = ⟨Entries.insert name c (cs.after steps).columns,
      (cs.after steps).changes ++
        .ofWrite (Entries.find? name (cs.after steps).columns) name c⟩ := by
  rw [after_concat, Filled.step_eq, h]

theorem find?_after_concat {written : String} {c : Column}
    (h : s.write? (cs.after steps).columns = some (written, c)) (name : String) :
    Entries.find? name (cs.after (steps ++ [s])).columns =
      if written = name then some c else Entries.find? name (cs.after steps).columns := by
  rw [after_concat_of_some h]
  split
  · next he => rw [← he, Entries.find?_insert_self]
  · next hne => rw [Entries.find?_insert_of_ne hne]

/-- A write that changes nothing writes what is there. -/
theorem find?_of_ofWrite_eq_none {name : String} {c : Column}
    (h : s.write? cs = some (name, c))
    (hadded : name ∉ (Changes.ofWrite (Entries.find? name cs) name c).added)
    (hdescription : name ∉ (Changes.ofWrite (Entries.find? name cs) name c).descriptions)
    (htags : name ∉ (Changes.ofWrite (Entries.find? name cs) name c).policyTags) :
    Entries.find? name cs = some c := by
  cases hold : Entries.find? name cs with
  | none =>
    rw [hold, Changes.ofWrite_none] at hadded
    exact absurd List.mem_cons_self hadded
  | some old =>
    rw [hold, Changes.ofWrite_some] at hdescription htags
    have hlist {b : Bool} (hb : name ∉ if b then [name] else []) : b = false := by
      cases b with
      | false => rfl
      | true => exact absurd List.mem_cons_self hb
    rw [(FillStep.extends_of_write? h hold).eq_of_not_lacks (hlist hdescription) (hlist htags)]

/-! ## Added columns -/

/-- Columns that are added go to the end, in the order of the list. -/
theorem keys_after (cs : Columns) (steps : List FillStep) :
    Entries.keys (cs.after steps).columns =
      Entries.keys cs ++ (cs.after steps).changes.added := by
  induction steps using List.reverseRecOn with
  | nil => exact (List.append_nil _).symm
  | append_singleton steps s ih =>
    rcases hw : s.write? (cs.after steps).columns with _ | ⟨name, c⟩
    · rw [after_concat_of_none hw, ih]
    · rw [after_concat_of_some hw]
      dsimp only [Changes.append_eq]
      rw [Entries.keys_insert, ← List.append_assoc, ← ih]
      cases hold : Entries.find? name (cs.after steps).columns with
      | none =>
        rw [if_neg (Entries.find?_eq_none.1 hold)]
        rfl
      | some old =>
        rw [if_pos (Entries.find?_isSome.1 (hold ▸ rfl))]
        exact (List.append_nil _).symm

/-! ## Filled columns -/

/-- At some point of the steps there is a column of the name that has a property. -/
def Had (cs : Columns) (steps : List FillStep) (name : String) (P : Column → Prop) : Prop :=
  ∃ done c, done <+: steps ∧ Entries.find? name (cs.after done).columns = some c ∧ P c

section Had

variable {name : String} {P : Column → Prop}

theorem Had.now {c : Column} (h : Entries.find? name (cs.after steps).columns = some c)
    (hc : P c) : cs.Had steps name P :=
  ⟨steps, c, List.prefix_rfl, h, hc⟩

/-- A column that was there is still there. -/
theorem Had.exists_find? (h : cs.Had steps name P) :
    ∃ c, Entries.find? name (cs.after steps).columns = some c := by
  obtain ⟨done, c, hdone, hc, -⟩ := h
  obtain ⟨c', hc', -⟩ := grows_after hdone name c hc
  exact ⟨c', hc'⟩

theorem had_concat : cs.Had (steps ++ [s]) name P ↔ cs.Had steps name P ∨
    ∃ c, Entries.find? name (cs.after (steps ++ [s])).columns = some c ∧ P c := by
  constructor
  · rintro ⟨done, c, hdone, hc, hP⟩
    rcases List.prefix_concat_iff.1 hdone with rfl | hdone
    · exact .inr ⟨c, hc, hP⟩
    · exact .inl ⟨done, c, hdone, hc, hP⟩
  · rintro (⟨done, c, hdone, hc, hP⟩ | ⟨c, hc, hP⟩)
    · exact ⟨done, c, hdone.trans (List.prefix_append steps [s]), hc, hP⟩
    · exact .now hc hP

end Had

/-- The name of the record that a step writes, if the column that was there does not have something
and the new one does. -/
def gains (has : Column → Bool) (old : Option Column) (name : String) (c : Column) : List String :=
  if old.any fun old => !has old && has c then [name] else []

theorem mem_gains {has : Column → Bool} {old : Option Column} {written name : String} {c : Column} :
    name ∈ gains has old written c ↔ name = written ∧
      ∃ o, old = some o ∧ has o = false ∧ has c = true := by
  unfold gains
  split
  · next hany => simpa [Option.any_eq_true] using fun _ => hany
  · next hany => simpa [Option.any_eq_true] using fun _ => hany

/-- The names are those of the columns that have something which they did not have at some point
after they had come into existence, each of them once. -/
structure Gained (has : Column → Bool) (cs : Columns) (steps : List FillStep)
    (names : List String) : Prop where
  nodup : names.Nodup
  mem_iff : ∀ name, name ∈ names ↔ cs.Had steps name (has · = false) ∧
    ∃ c, Entries.find? name (cs.after steps).columns = some c ∧ has c = true

namespace Gained

variable {has : Column → Bool} {names : List String}

theorem start (has : Column → Bool) (cs : Columns) : Gained has cs [] [] where
  nodup := List.nodup_nil
  mem_iff name := by
    refine ⟨nofun, ?_⟩
    rintro ⟨⟨done, c, hdone, hc, hlacks⟩, c', hc', hhas⟩
    cases List.prefix_nil.1 hdone
    cases hc.symm.trans hc'
    exact absurd (hlacks.symm.trans hhas) Bool.false_ne_true

theorem skip (h : Gained has cs steps names) (he : cs.after (steps ++ [s]) = cs.after steps) :
    Gained has cs (steps ++ [s]) names where
  nodup := h.nodup
  mem_iff name := by
    have hhad : cs.Had (steps ++ [s]) name (has · = false) ↔ cs.Had steps name (has · = false) := by
      rw [had_concat, he]
      exact or_iff_left_of_imp fun ⟨c, hc, hlacks⟩ => .now hc hlacks
    rw [h.mem_iff, hhad, he]

/-- A step that writes a record lists its name if that gives the column what it did not have. -/
theorem write (hkept : Column.Kept has) (h : Gained has cs steps names) {written : String} {c : Column}
    (hw : s.write? (cs.after steps).columns = some (written, c)) :
    Gained has cs (steps ++ [s])
      (names ++ gains has (Entries.find? written (cs.after steps).columns) written c) := by
  constructor
  · refine List.nodup_append.2 ⟨h.nodup, by unfold gains; split <;> simp, ?_⟩
    -- A name that is listed already is that of a column with what the list is about.
    rintro name hname _ hlast rfl
    obtain ⟨rfl, old, hold, hlacks, -⟩ := mem_gains.1 hlast
    obtain ⟨-, c', hc', hhas⟩ := (h.mem_iff name).1 hname
    cases hold.symm.trans hc'
    exact Bool.false_ne_true (hlacks.symm.trans hhas)
  · intro name
    rw [List.mem_append, mem_gains, h.mem_iff, had_concat, find?_after_concat hw]
    by_cases hname : written = name
    · subst hname
      rw [if_pos rfl]
      constructor
      · rintro (⟨hhad, old, hold, hhas⟩ | ⟨-, old, hold, hlacks, hhas⟩)
        · exact ⟨.inl hhad, c, rfl, hkept (FillStep.extends_of_write? hw hold) hhas⟩
        · exact ⟨.inl (.now hold hlacks), c, rfl, hhas⟩
      · rintro ⟨hhad | ⟨_, he, hlacks⟩, _, he', hhas⟩
        · cases he'
          obtain ⟨old, hold⟩ := hhad.exists_find?
          cases hlacks : has old with
          | true => exact .inl ⟨hhad, old, hold, hlacks⟩
          | false => exact .inr ⟨rfl, old, hold, hlacks, hhas⟩
        · cases he
          cases he'
          exact absurd (hlacks.symm.trans hhas) Bool.false_ne_true
    · rw [if_neg hname]
      constructor
      · rintro (⟨hhad, hc⟩ | ⟨rfl, -⟩)
        · exact ⟨.inl hhad, hc⟩
        · exact absurd rfl hname
      · rintro ⟨hhad | ⟨c', hc', hlacks⟩, hc⟩
        · exact .inl ⟨hhad, hc⟩
        · exact .inl ⟨.now hc' hlacks, hc⟩

end Gained

/-- A list of changes that says for each write what it gains says it for all of them. -/
theorem gained_after {has : Column → Bool} (hkept : Column.Kept has)
    {list : Changes → List String} (hnone : list .none = [])
    (happend : ∀ a b, list (a ++ b) = list a ++ list b)
    (hwrite : ∀ old name c, list (.ofWrite old name c) = gains has old name c) (cs : Columns)
    (steps : List FillStep) : Gained has cs steps (list (cs.after steps).changes) := by
  induction steps using List.reverseRecOn with
  | nil =>
    have hstart : (cs.after []).changes = .none := rfl
    rw [hstart, hnone]
    exact .start has cs
  | append_singleton steps s ih =>
    rcases hw : s.write? (cs.after steps).columns with _ | ⟨name, c⟩
    · have he := after_concat_of_none hw
      rw [he]
      exact ih.skip he
    · have hnext := ih.write hkept hw
      rw [after_concat_of_some hw]
      dsimp only
      rwa [happend, hwrite]

theorem gained_descriptions (cs : Columns) (steps : List FillStep) :
    Gained (fun c => !c.description.isEmpty) cs steps (cs.after steps).changes.descriptions :=
  gained_after Column.kept_description rfl (fun _ _ => rfl)
    (fun old name c => by simp only [gains, Bool.not_not]; rfl) cs steps

theorem gained_policyTags (cs : Columns) (steps : List FillStep) :
    Gained (fun c => c.policyTags.isSome) cs steps (cs.after steps).changes.policyTags :=
  gained_after Column.kept_policyTags rfl (fun _ _ => rfl)
    (fun old name c => by simp only [gains, Option.not_isSome]; rfl) cs steps

/-! ## Columns that are in no list -/

theorem find?_after_of_not_mem {name : String}
    (hadded : name ∉ (cs.after steps).changes.added)
    (hdescription : name ∉ (cs.after steps).changes.descriptions)
    (htags : name ∉ (cs.after steps).changes.policyTags) :
    Entries.find? name (cs.after steps).columns = Entries.find? name cs := by
  induction steps using List.reverseRecOn with
  | nil => rfl
  | append_singleton steps s ih =>
    rcases hw : s.write? (cs.after steps).columns with _ | ⟨written, c⟩
    · rw [after_concat_of_none hw] at hadded hdescription htags ⊢
      exact ih hadded hdescription htags
    · rw [after_concat_of_some hw] at hadded hdescription htags
      dsimp only [Changes.append_eq] at hadded hdescription htags
      rw [List.mem_append, not_or] at hadded hdescription htags
      rw [find?_after_concat hw, ← ih hadded.1 hdescription.1 htags.1]
      split
      · next he =>
        subst he
        exact (find?_of_ofWrite_eq_none hw hadded.2 hdescription.2 htags.2).symm
      · rfl

theorem columns_after_of_changes_eq_none (h : (cs.after steps).changes = .none) :
    (cs.after steps).columns = cs := by
  induction steps using List.reverseRecOn with
  | nil => rfl
  | append_singleton steps s ih =>
    rcases hw : s.write? (cs.after steps).columns with _ | ⟨written, c⟩
    · rw [after_concat_of_none hw] at h ⊢
      exact ih h
    · rw [after_concat_of_some hw] at h ⊢
      obtain ⟨hbefore, hwrite⟩ := Changes.append_eq_none.1 h
      have hsame : Entries.find? written (cs.after steps).columns = some c := by
        refine find?_of_ofWrite_eq_none hw ?_ ?_ ?_ <;> rw [hwrite] <;> exact List.not_mem_nil
      dsimp only
      rw [Entries.insert_eq_self hsame, ih hbefore]

/-- Columns that are as they were have gained nothing on the way. -/
theorem Gained.eq_nil {has : Column → Bool} {names : List String} (hkept : Column.Kept has)
    (h : Gained has cs steps names) (hsame : (cs.after steps).columns = cs) : names = [] := by
  refine List.eq_nil_iff_forall_not_mem.2 fun name hname => ?_
  obtain ⟨⟨done, c, -, hc, hlacks⟩, c', hc', hhas⟩ := (h.mem_iff name).1 hname
  rw [hsame] at hc'
  obtain ⟨c'', hc'', hextends⟩ := grows_after (List.nil_prefix (l := done)) name c' hc'
  cases hc.symm.trans hc''
  exact Bool.false_ne_true (hlacks.symm.trans (hkept hextends hhas))

theorem changes_after_eq_none_iff :
    (cs.after steps).changes = .none ↔ (cs.after steps).columns = cs := by
  refine ⟨columns_after_of_changes_eq_none, fun hsame => ?_⟩
  have hadded : (cs.after steps).changes.added = [] := by
    have hkeys := keys_after cs steps
    rwa [hsame, List.self_eq_append_right] at hkeys
  have hdescriptions := (gained_descriptions cs steps).eq_nil Column.kept_description hsame
  have htags := (gained_policyTags cs steps).eq_nil Column.kept_policyTags hsame
  exact (Changes.mk.injEq ..).mpr ⟨hadded, hdescriptions, htags⟩

/-! ## All changes -/

variable (cs : Columns) (t : WarehouseTable) (ds : List Columns)

/-- The changes of filling say what became of the columns. The added names are those that are there
now and were not before, each once and in the order in which they were appended. A name is listed for
its description exactly when at some point there was a column of the name with an empty one and the
column has one now, and likewise for its tags, and it is listed once. A column that is in no list has
the record that it had, and there are no changes exactly when the columns are what they were. -/
theorem fill_tells_changes :
    cs.fill t ds = cs.after (fillSteps t ds) ∧
    Entries.keys (cs.fill t ds).columns = Entries.keys cs ++ (cs.fill t ds).changes.added ∧
    (cs.fill t ds).changes.added.Nodup ∧
    (∀ name, name ∈ (cs.fill t ds).changes.added ↔
      name ∈ Entries.keys (cs.fill t ds).columns ∧ name ∉ Entries.keys cs) ∧
    (cs.fill t ds).changes.descriptions.Nodup ∧
    (∀ name, name ∈ (cs.fill t ds).changes.descriptions ↔
      cs.Had (fillSteps t ds) name (fun c => c.description = "") ∧
        ∃ c, Entries.find? name (cs.fill t ds).columns = some c ∧ c.description ≠ "") ∧
    (cs.fill t ds).changes.policyTags.Nodup ∧
    (∀ name, name ∈ (cs.fill t ds).changes.policyTags ↔
      cs.Had (fillSteps t ds) name (fun c => c.policyTags = none) ∧
        ∃ c, Entries.find? name (cs.fill t ds).columns = some c ∧ c.policyTags ≠ none) ∧
    (∀ name, name ∉ (cs.fill t ds).changes.added → name ∉ (cs.fill t ds).changes.descriptions →
      name ∉ (cs.fill t ds).changes.policyTags →
      Entries.find? name (cs.fill t ds).columns = Entries.find? name cs) ∧
    ((cs.fill t ds).changes.isNone = true ↔ (cs.fill t ds).columns = cs) := by
  -- The new names are also known in the order in which the sources name them.
  have hadded := (cs.keys_fill t ds).trans (foldl_noted _ _)
  rw [fill_eq_after, keys_after, List.append_cancel_left_eq] at hadded
  rw [fill_eq_after]
  refine ⟨rfl, keys_after cs _, ?_, fun name => ?_, (gained_descriptions cs _).nodup, fun name => ?_,
    (gained_policyTags cs _).nodup, fun name => ?_, fun name => find?_after_of_not_mem, ?_⟩
  · rw [hadded]
    exact nodup_eraseDups _
  · have hnew : name ∈ (cs.after (fillSteps t ds)).changes.added → name ∉ Entries.keys cs := by
      intro hname
      rw [hadded, List.mem_eraseDups, List.mem_filter] at hname
      simpa using hname.2
    rw [keys_after, List.mem_append]
    exact ⟨fun hname => ⟨.inr hname, hnew hname⟩, fun ⟨hname, hnot⟩ => hname.resolve_left hnot⟩
  · simpa using (gained_descriptions cs (fillSteps t ds)).mem_iff name
  · simpa [Option.isSome_iff_ne_none] using (gained_policyTags cs (fillSteps t ds)).mem_iff name
  · rw [Changes.isNone_iff]
    exact changes_after_eq_none_iff

end Columns

end ColumnMetadata
