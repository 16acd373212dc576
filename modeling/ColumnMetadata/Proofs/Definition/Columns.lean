import ColumnMetadata.Proofs.Definition.Column

/-!
# The columns of a definition are read back

Columns under distinct names, each of them well formed, are written as an object that is read as
columns of the same names in the same order that agree with them one by one (`Columns.Agree`).
-/

namespace ColumnMetadata.Columns

/-- What reading columns ensures and filling keeps, when the numbers in them are of one kind. -/
structure WellFormedWith (P : Number → Prop) (cs : Columns) : Prop where
  names : Entries.Distinct cs
  columns : ∀ p ∈ cs, p.2.WellFormedWith P

/-- Well-formed columns whose numbers are read back as themselves. -/
abbrev WellFormed (cs : Columns) : Prop := cs.WellFormedWith Number.Rereads

variable {P : Number → Prop}

theorem WellFormedWith.nil : WellFormedWith P [] := ⟨Entries.distinct_nil, nofun⟩

theorem WellFormedWith.find? {cs : Columns} (h : cs.WellFormedWith P) {name : String} {c : Column}
    (hc : Entries.find? name cs = some c) : c.WellFormedWith P :=
  h.columns _ (Entries.mem_of_find? hc)

theorem WellFormedWith.insert {cs : Columns} (h : cs.WellFormedWith P) (name : String) {c : Column}
    (hc : c.WellFormedWith P) : WellFormedWith P (Entries.insert name c cs) := by
  refine ⟨h.names.insert name c, fun p hp => ?_⟩
  rcases Entries.mem_insert hp with rfl | hp
  · exact hc
  · exact h.columns p hp

theorem WellFormedWith.perm {cs cs' : Columns} (h : cs.WellFormedWith P) (hp : cs'.Perm cs) :
    cs'.WellFormedWith P :=
  ⟨((hp.map Prod.fst).nodup_iff).2 h.names, fun p hmem => h.columns p (hp.mem_iff.1 hmem)⟩

/-! ## Reading -/

/-- Fields are read one by one. -/
theorem ofFields_cons_eq_ok {p : String × Value} {fs : Entries Value} {cs : Columns} :
    ofFields (p :: fs) = .ok cs ↔ ∃ c rest, Column.ofValue p.1 p.2 = .ok c ∧
      ofFields fs = .ok rest ∧ cs = (p.1, c) :: rest := by
  constructor
  · intro h
    obtain ⟨c, hc, h⟩ := bind_eq_ok.1 h
    obtain ⟨rest, hrest, h⟩ := bind_eq_ok.1 h
    cases h
    exact ⟨c, rest, hc, hrest, rfl⟩
  · rintro ⟨c, rest, hc, hrest, rfl⟩
    exact bind_eq_ok.2 ⟨c, hc, bind_eq_ok.2 ⟨rest, hrest, rfl⟩⟩

theorem keys_of_ofFields {fs : Entries Value} {cs : Columns} (h : ofFields fs = .ok cs) :
    Entries.keys cs = Entries.keys fs := by
  induction fs generalizing cs with
  | nil =>
    cases h
    rfl
  | cons p fs ih =>
    obtain ⟨c, rest, -, hrest, rfl⟩ := ofFields_cons_eq_ok.1 h
    rw [Entries.keys_cons, Entries.keys_cons, ih hrest]

/-- Each column that is read comes from one of the fields. -/
theorem exists_field_of_ofFields {fs : Entries Value} {cs : Columns} (h : ofFields fs = .ok cs)
    {p : String × Column} (hp : p ∈ cs) : ∃ v, (p.1, v) ∈ fs ∧ Column.ofValue p.1 v = .ok p.2 := by
  induction fs generalizing cs with
  | nil =>
    cases h
    cases hp
  | cons q fs ih =>
    obtain ⟨c, rest, hc, hrest, rfl⟩ := ofFields_cons_eq_ok.1 h
    rcases List.mem_cons.1 hp with rfl | hp
    · exact ⟨q.2, List.mem_cons_self, hc⟩
    · obtain ⟨v, hv, hread⟩ := ih hrest hp
      exact ⟨v, List.mem_cons_of_mem _ hv, hread⟩

/-- Columns that were read are well formed. -/
theorem WellFormedWith.of_ofValue {v : Value} {cs : Columns} (h : Columns.ofValue v = .ok cs)
    (hv : v.Within P (columnRoom + 2)) : cs.WellFormedWith P := by
  cases v with
  | object fs =>
    obtain ⟨hkeys, hfields⟩ := Value.within_object.1 hv
    refine ⟨by rw [Entries.Distinct, keys_of_ofFields h]; exact hkeys, fun p hp => ?_⟩
    obtain ⟨v, hv, hread⟩ := exists_field_of_ofFields h hp
    exact .of_ofValue hread (hfields _ hv)
  | _ => cases h

/-! ## Agreement -/

/-- Columns of the same names in the same order that agree one by one. -/
inductive Agree : Columns → Columns → Prop
  | nil : Agree [] []
  | cons {c c' : Column} {cs cs' : Columns} (name : String) (h : c.Agree c') (hs : Agree cs cs') :
      Agree ((name, c) :: cs) ((name, c') :: cs')

namespace Agree

theorem refl (cs : Columns) : Agree cs cs := by
  induction cs with
  | nil => exact .nil
  | cons p cs ih => exact .cons p.1 ⟨rfl, rfl, rfl⟩ ih

theorem keys {cs cs' : Columns} (h : Agree cs cs') : Entries.keys cs' = Entries.keys cs := by
  induction h with
  | nil => rfl
  | cons name _ _ ih => rw [Entries.keys_cons, Entries.keys_cons, ih]

theorem toValue_eq {cs cs' : Columns} (h : Agree cs cs') : cs'.toValue = cs.toValue := by
  refine congrArg Value.object ?_
  induction h with
  | nil => rfl
  | cons name h _ ih => simp only [List.map_cons, ih, h.written]

theorem find? {cs cs' : Columns} (h : Agree cs cs') {name : String} {c : Column}
    (hc : Entries.find? name cs = some c) :
    ∃ c', Entries.find? name cs' = some c' ∧ c.Agree c' := by
  induction h with
  | nil => cases hc
  | @cons d d' cs cs' name' hd _ ih =>
    by_cases hname : name' = name
    · rw [Entries.find?, if_pos hname] at hc
      cases hc
      exact ⟨d', by rw [Entries.find?, if_pos hname], hd⟩
    · rw [Entries.find?, if_neg hname] at hc ⊢
      exact ih hc

theorem mem {cs cs' : Columns} (h : Agree cs cs') {p' : String × Column} (hp : p' ∈ cs') :
    ∃ c, (p'.1, c) ∈ cs ∧ c.Agree p'.2 := by
  induction h with
  | nil => cases hp
  | @cons d d' cs cs' name hd _ ih =>
    rcases List.mem_cons.1 hp with rfl | hp
    · exact ⟨d, List.mem_cons_self, hd⟩
    · obtain ⟨c, hc, hagree⟩ := ih hp
      exact ⟨c, List.mem_cons_of_mem _ hc, hagree⟩

end Agree

/-! ## Reading what was written -/

/-- The written columns are read as columns that agree with them. -/
theorem exists_ofValue_toValue {cs : Columns} (h : cs.WellFormedWith P) :
    ∃ cs', Columns.ofValue cs.toValue = .ok cs' ∧ Agree cs cs' := by
  obtain ⟨-, hcs⟩ := h
  rw [toValue, Columns.ofValue]
  induction cs with
  | nil => exact ⟨[], rfl, .nil⟩
  | cons p cs ih =>
    obtain ⟨hc, hcs⟩ := List.forall_mem_cons.1 hcs
    obtain ⟨c', hread, hagree⟩ := Column.exists_ofValue_toValue hc p.1
    obtain ⟨cs', hreads, hagrees⟩ := ih hcs
    have hfields : ofFields ((p.1, p.2.toValue) :: _) = .ok ((p.1, c') :: cs') :=
      ofFields_cons_eq_ok.2 ⟨c', cs', hread, hreads, rfl⟩
    exact ⟨(p.1, c') :: cs', hfields, .cons p.1 hagree hagrees⟩

/-- The written columns fit into their place, with numbers of the same kind. -/
theorem within_toValue {cs : Columns} (h : cs.WellFormedWith P) :
    cs.toValue.Within P (columnRoom + 2) := by
  refine Value.within_object.2 ⟨?_, fun p hp => ?_⟩
  · rw [Entries.Distinct, Entries.keys, List.map_map]
    exact h.names
  · obtain ⟨q, hq, rfl⟩ := List.mem_map.1 hp
    exact Column.within_toValue (h.columns q hq)

end ColumnMetadata.Columns
