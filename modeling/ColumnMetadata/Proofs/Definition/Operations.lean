import ColumnMetadata.Proofs.Definition.Permuting
import ColumnMetadata.Proofs.Definition.Steps

/-!
# Columns as a map that keeps its order

Columns are read from a block, or there are none, and then operations change them
(`Columns.Operation`, `Columns.Built`). Every operation writes some records under names, one after
the other (`Operation.writes`), but for putting the columns in an order, which writes none and moves
them. So the names stay distinct and a name has the record that was written under it last
(`Columns.Built.names`, `Columns.Built.find?`), and no column is lost where the columns are collected
into an object (`Columns.built_is_ordered_map`).
-/

namespace ColumnMetadata

/-- A text that is a value has that value at its start. -/
theorem Literal.exists_parseAt_of_parse {text : List Char} {v : Value}
    (h : Literal.parse text = .ok v) : ∃ stop, Literal.parseAt text 0 = .ok (v, stop) := by
  obtain ⟨⟨w, u⟩, hvalue, h⟩ := bind_eq_ok.1 h
  have hw : w = v := by
    dsimp only at h
    split at h
    · cases h
    · cases h
    · cases h
      rfl
  exact ⟨u.pos, map_eq_ok.2 ⟨(w, u), hvalue, by rw [hw]⟩⟩

namespace FillStep

/-- The records that steps write, in order, each with its name. -/
def writes (cs : Columns) : List FillStep → List (String × Column)
  | [] => []
  | s :: steps =>
    match s.write? cs with
    | none => writes cs steps
    | some (name, c) => (name, c) :: writes (Entries.insert name c cs) steps

theorem columns_after (cs : Columns) (steps : List FillStep) :
    (cs.after steps).columns = Entries.insertAll cs (writes cs steps) := by
  induction steps generalizing cs with
  | nil => rfl
  | cons s steps ih =>
    have hcons : cs.after (s :: steps) = steps.foldl Filled.step ((Filled.start cs).step s) := rfl
    rw [hcons, Columns.foldl_step_eq, Filled.step_eq, writes]
    rcases hw : s.write? cs with _ | ⟨name, c⟩
    · dsimp only [Filled.start]
      rw [hw]
      exact ih cs
    · dsimp only [Filled.start]
      rw [hw]
      exact ih (Entries.insert name c cs)

end FillStep

namespace Columns

/-- What is done to columns. -/
inductive Operation where
  /-- Puts a record under a name. -/
  | insert (name : String) (c : Column)
  /-- Changes the record under a name, if there is one. -/
  | edit (name : String) (change : Column → Column)
  | reorder (names : List String)
  | enrich (t : WarehouseTable)
  | inherit (dependency : Columns)

def apply (cs : Columns) : Operation → Columns
  | .insert name c => Entries.insert name c cs
  | .edit name change => Entries.modify name change cs
  | .reorder names => reorder names cs
  | .enrich t => (cs.enrich t).columns
  | .inherit dependency => (cs.inherit dependency).columns

/-- The records that an operation writes, in order, each with its name. -/
def Operation.writes (cs : Columns) : Operation → List (String × Column)
  | .insert name c => [(name, c)]
  | .edit name change => ((Entries.find? name cs).map fun c => (name, change c)).toList
  | .reorder _ => []
  | .enrich t => FillStep.writes cs (FillStep.ofTable t)
  | .inherit dependency => FillStep.writes cs (FillStep.ofDependency dependency)

/-- An operation moves columns and writes nothing, or writes its records and moves nothing. -/
theorem apply_cases (cs : Columns) (op : Operation) :
    (∃ names, op = .reorder names) ∨ cs.apply op = Entries.insertAll cs (op.writes cs) := by
  cases op with
  | reorder names => exact .inl ⟨names, rfl⟩
  | insert name c => exact .inr rfl
  | edit name change =>
    refine .inr ?_
    rw [apply, Operation.writes]
    cases hold : Entries.find? name cs with
    | none => exact Entries.modify_of_find?_eq_none hold change
    | some c => exact Entries.modify_of_find?_eq_some hold change
  | enrich t =>
    refine .inr ?_
    rw [apply, enrich_eq_after, FillStep.columns_after, Operation.writes]
  | inherit dependency =>
    refine .inr ?_
    rw [apply, inherit_eq_after, FillStep.columns_after, Operation.writes]

theorem distinct_apply {cs : Columns} (h : Entries.Distinct cs) (op : Operation) :
    Entries.Distinct (cs.apply op) := by
  rcases cs.apply_cases op with ⟨names, rfl⟩ | hwrites
  · exact (((reorder_perm names cs).map Prod.fst).nodup_iff).2 h
  · rw [hwrites]
    exact h.insertAll _

theorem find?_apply {cs : Columns} (h : Entries.Distinct cs) (op : Operation) (name : String) :
    Entries.find? name (cs.apply op) =
      (Entries.find? name (op.writes cs).reverse).or (Entries.find? name cs) := by
  rcases cs.apply_cases op with ⟨names, rfl⟩ | hwrites
  · exact find?_reorder h names name
  · rw [hwrites, Entries.find?_insertAll]

/-- The columns can come from a text, or from none, by operations, and these are the records that
were written under their names on the way, in order. -/
inductive Built : Columns → List (String × Column) → Prop
  | new : Built [] []
  /-- The columns of a definition file. -/
  | file {text : String} {d : Definition} (h : Definition.parse text = .ok d) :
      Built d.columns d.columns
  /-- The columns of a block by itself. -/
  | block {body : List Char} {m : Metadata} (h : Metadata.parse body = .ok m) :
      Built m.columns m.columns
  | apply {cs : Columns} {written : List (String × Column)} (h : Built cs written)
      (op : Operation) : Built (cs.apply op) (written ++ op.writes cs)

namespace Built

theorem names {cs : Columns} {written : List (String × Column)} (h : Built cs written) :
    Entries.Distinct cs := by
  induction h with
  | new => exact Entries.distinct_nil
  | file h => exact (Definition.wellFormed_columns_of_parse h).names
  | block h =>
    obtain ⟨v, hv, hm⟩ := bind_eq_ok.1 h
    obtain ⟨stop, hv⟩ := Literal.exists_parseAt_of_parse (mapError_eq_ok.1 hv)
    exact (Metadata.WellFormedWith.of_ofValue (mapError_eq_ok.1 hm)
      ⟨Literal.fits_of_parseAt hv, Literal.numbers_of_parseAt hv⟩).columns.names
  | apply _ op ih => exact distinct_apply ih op

/-- A name has the record that was written under it last. -/
theorem find? {cs : Columns} {written : List (String × Column)} (h : Built cs written)
    (name : String) : Entries.find? name cs = Entries.find? name written.reverse := by
  -- With distinct names it does not count from which end a name is looked up.
  have hread {cs : Columns} (hcs : Entries.Distinct cs) :
      Entries.find? name cs = Entries.find? name cs.reverse :=
    (Entries.find?_of_perm hcs (List.reverse_perm cs) name).symm
  induction h with
  | new => rfl
  | file h => exact hread (Built.file h).names
  | block h => exact hread (Built.block h).names
  | apply h op ih =>
    rw [find?_apply h.names, ih, List.reverse_append, Entries.find?_append]

end Built

/-- Columns that were built by operations are a map that keeps its order. Their names are distinct,
and a name has the record that was written under it last, if any. A record that is put under a name
takes the place of the one that was there, and one under a new name goes to the end. A column is there
exactly when its name is listed. And collecting the columns into an object loses none of them: it
has a field for each, in order, with what the column is written as. -/
theorem built_is_ordered_map {cs : Columns} {written : List (String × Column)}
    (h : Built cs written) :
    Entries.Distinct cs ∧
    (∀ name, Entries.find? name cs = Entries.find? name written.reverse) ∧
    (∀ before name old after, cs = before ++ (name, old) :: after →
      ∀ c, cs.apply (.insert name c) = before ++ (name, c) :: after) ∧
    (∀ name, name ∉ Entries.keys cs → ∀ c, cs.apply (.insert name c) = cs ++ [(name, c)]) ∧
    (∀ name, Entries.contains name cs = true ↔ name ∈ Entries.keys cs) ∧
    ∃ fields, cs.toValue = .object fields ∧
      fields = Entries.ofPairs (cs.map fun p => (p.1, p.2.toValue)) ∧
      fields.length = cs.length ∧ Entries.keys fields = Entries.keys cs ∧
      ∀ name, Entries.find? name fields = (Entries.find? name cs).map Column.toValue := by
  have hkeys : Entries.keys (Entries.mapValues Column.toValue cs) = Entries.keys cs :=
    Entries.keys_mapValues _ cs
  refine ⟨h.names, h.find?, ?_, fun name hname c => Entries.insert_of_not_mem hname c,
    fun name => Entries.contains_iff, Entries.mapValues Column.toValue cs, rfl, ?_,
    List.length_map _, hkeys, fun name => Entries.find?_mapValues _ name cs⟩
  · rintro before name old after rfl c
    exact Entries.insert_append_cons (Entries.not_mem_keys_of_distinct h.names) old c after
  · refine (Entries.ofPairs_eq_self ?_).symm
    exact (congrArg List.Nodup hkeys).mpr h.names

/-- The columns of a file. -/
def sampleRead : Columns := [("id", .ofDescription "key"), ("note", .ofDescription "")]

/-- Operations of every kind. -/
def sampleOperations : List Operation :=
  [.insert "amount" (.ofDescription "price"), .edit "id" fun c => { c with policyTags := some ["t"] },
    .edit "missing" id, .reorder ["amount", "missing", "id"],
    .enrich ⟨"s", "t", [⟨"id", some "other", none⟩, ⟨"region", none, none⟩]⟩,
    .inherit [("region", .ofDescription "country"), ("note", .ofDescription "text")],
    .insert "id" (.ofDescription "new key")]

theorem built_is_ordered_map_sample :
    ∃ cs written fields, Built cs written ∧
      Entries.keys cs = ["amount", "id", "note", "region"] ∧
      Entries.find? "id" cs = some (.ofDescription "new key") ∧
      Entries.find? "region" cs = some (.ofDescription "country") ∧
      cs.toValue = .object fields ∧ Entries.keys fields = ["amount", "id", "note", "region"] ∧
      cs.apply (.insert "last" (.ofDescription "")) = cs ++ [("last", .ofDescription "")] := by
  obtain ⟨d, hparse, hread⟩ : ∃ d,
      Definition.parse "config \x7b columns: \x7b id: 'key', note: '' \x7d \x7d" = .ok d ∧
        decide (d.columns = sampleRead) = true :=
    exists_ok_of_any (by decide +kernel)
  have hbuilt : Built sampleRead sampleRead := of_decide_eq_true hread ▸ Built.file hparse
  -- Each operation is applied to what the ones before it have built.
  have hall := sampleOperations.foldlRecOn
    (fun (p : Columns × List (String × Column)) op => (p.1.apply op, p.2 ++ op.writes p.1))
    (b := (sampleRead, sampleRead)) (motive := fun p => Built p.1 p.2) hbuilt
    fun _ h op _ => h.apply op
  obtain ⟨-, hfind, -, happend, -, fields, hfields, -, -, hkeys, -⟩ := built_is_ordered_map hall
  exact ⟨_, _, fields, hall, by decide +kernel, (hfind "id").trans (by decide +kernel),
    (hfind "region").trans (by decide +kernel), hfields, hkeys.trans (by decide +kernel),
    happend "last" (by decide +kernel) _⟩

end Columns

end ColumnMetadata
