import ColumnMetadata.Proofs.Definition.Precedence
import ColumnMetadata.Proofs.Definition.Rendering

/-!
# Columns in another order

Filling takes from its sources by name, so it comes to the same columns, up to their order, from
dependencies whose columns stand in another order (`Columns.perm_fill`). A block that is written
with its columns in another order is read as a block that says the same with its columns in that
order (`Definition.permuted_replace`).
-/

namespace ColumnMetadata

namespace Columns

variable {P : Number → Prop}

/-- Filling from dependencies in another order gives the same columns in another order. -/
theorem perm_fill {ι : Type} {cs : Columns} (hcs : cs.WellFormedWith P) (t : WarehouseTable)
    {ids : List ι} {f f' : ι → Columns} (hf : ∀ i ∈ ids, (f i).WellFormedWith P)
    (h : ∀ i ∈ ids, (f' i).Perm (f i)) :
    (cs.fill t (ids.map f')).columns.Perm (cs.fill t (ids.map f)).columns := by
  have hf' : ∀ i ∈ ids, (f' i).WellFormedWith P := fun i hi => (hf i hi).perm (h i hi)
  have hsources : ∀ name, cs.sources t (ids.map f') name = cs.sources t (ids.map f) name := by
    intro name
    rw [sources, sources, List.flatMap_map, List.flatMap_map]
    apply congrArg _ (List.flatMap_congr _)
    intro i hi
    rw [Entries.valuesOf_eq (hf i hi).names, Entries.valuesOf_eq (hf' i hi).names,
      Entries.find?_of_perm (hf i hi).names (h i hi)]
  have hfilled := hcs.fill t (List.forall_mem_map.2 hf)
  have hfilled' := hcs.fill t (List.forall_mem_map.2 hf')
  apply Entries.perm_of_find?_eq hfilled'.names hfilled.names
  intro name
  rw [find?_fill, find?_fill, hsources]

/-- Fields in another order are read as the same columns in that order. -/
theorem exists_ofFields_of_perm {fs fs' : Entries Value} (h : fs.Perm fs') {cs : Columns}
    (hread : ofFields fs = .ok cs) : ∃ cs', ofFields fs' = .ok cs' ∧ cs'.Perm cs := by
  induction h generalizing cs with
  | nil => exact ⟨cs, hread, .refl cs⟩
  | cons p _ ih =>
    obtain ⟨c, rest, hc, hrest, rfl⟩ := ofFields_cons_eq_ok.1 hread
    obtain ⟨rest', hrest', hperm⟩ := ih hrest
    exact ⟨(p.1, c) :: rest', ofFields_cons_eq_ok.2 ⟨c, rest', hc, hrest', rfl⟩, hperm.cons _⟩
  | swap p q fs =>
    obtain ⟨c, cs', hc, hfields, rfl⟩ := ofFields_cons_eq_ok.1 hread
    obtain ⟨c', rest, hc', hrest, rfl⟩ := ofFields_cons_eq_ok.1 hfields
    have hlast := ofFields_cons_eq_ok.2 ⟨c, rest, hc, hrest, rfl⟩
    exact ⟨(p.1, c') :: (q.1, c) :: rest, ofFields_cons_eq_ok.2 ⟨c', _, hc', hlast, rfl⟩,
      .swap ..⟩
  | trans _ _ ih ih' =>
    obtain ⟨cs', hread', hperm⟩ := ih hread
    obtain ⟨cs'', hread'', hperm'⟩ := ih' hread'
    exact ⟨cs'', hread'', hperm'.trans hperm⟩

theorem perm_ofValue_toValue {cs cs' : Columns} (h : cs'.Perm cs) {ds ds' : Columns}
    (hds : Columns.ofValue cs.toValue = .ok ds) (hds' : Columns.ofValue cs'.toValue = .ok ds') :
    ds'.Perm ds := by
  obtain ⟨es, hread, hperm⟩ := exists_ofFields_of_perm (h.symm.map _) hds
  cases hread.symm.trans hds'
  exact hperm

end Columns

/-- Definitions with the same text around their blocks and the same fields in them, whose columns
have distinct names and are the same but for their order. -/
structure Definition.Permuted (d d' : Definition) : Prop where
  around : (d'.block.map fun b => (b.before, b.after)) = d.block.map fun b => (b.before, b.after)
  fields : d'.metadata.fields = d.metadata.fields
  names : Entries.Distinct d.columns
  columns : d'.columns.Perm d.columns

namespace Definition

/-- The columns of a file that was read are well formed, with or without a block. -/
theorem wellFormed_columns_of_parse {text : String} {d : Definition}
    (hparse : Definition.parse text = .ok d) : d.columns.WellFormedWith Number.Legible := by
  cases hblock : d.block with
  | none =>
    rw [columns, metadata_of_parse hparse hblock]
    exact .nil
  | some b => exact (wellFormedWith_of_parse hparse hblock).columns

/-- What is written for a block is read as what its content is read as, with its numbers read anew.
-/
theorem exists_parse_replace_reread {text : String} {b : Block} {m : Metadata}
    (hlocated : Block.locate text.toList = .ok (some b)) (hm : m.WellFormedWith Number.Legible) :
    ∃ m', Metadata.ofValue m.toValue = .ok m' ∧ m.Agree m' ∧
      Definition.parse (String.ofList (b.replace m.render)) =
        .ok ⟨String.ofList (b.replace m.render), some (b.rewritten m), m'.mapNumbers .reread⟩ := by
  obtain ⟨m', hread, hagree⟩ := Metadata.exists_ofValue_toValue hm
  refine ⟨m', hread, hagree, parse_replace hlocated (Metadata.within_toValue hm) ?_⟩
  rw [Metadata.ofValue_mapNumbers, hread]
  rfl

/-- What is written for a block and what is written for it with its columns in another order are
read as definitions that differ in this order only. -/
theorem permuted_replace {text : String} {b : Block} {m : Metadata} {cs : Columns}
    (hlocated : Block.locate text.toList = .ok (some b)) (hm : m.WellFormedWith Number.Legible)
    (hcs : cs.Perm m.columns) : ∃ d d',
      Definition.parse (String.ofList (b.replace m.render)) = .ok d ∧
      Definition.parse (String.ofList (b.replace { m with columns := cs }.render)) = .ok d' ∧
      d.Permuted d' := by
  have hm' : Metadata.WellFormedWith Number.Legible { m with columns := cs } :=
    hm.withColumns (hm.columns.perm hcs)
  obtain ⟨k, hread, hagree, hparse⟩ := exists_parse_replace_reread hlocated hm
  obtain ⟨k', hread', hagree', hparse'⟩ := exists_parse_replace_reread hlocated hm'
  have hperm : k'.columns.Perm k.columns := Columns.perm_ofValue_toValue hcs
    (Metadata.ofValue_columns_of_reread hm hread) (Metadata.ofValue_columns_of_reread hm' hread')
  refine ⟨_, _, hparse, hparse', rfl, ?_, (wellFormedWith_of_parse hparse rfl).columns.names,
    hperm.map _⟩
  exact congrArg (Entries.mapValues (Value.mapNumbers .reread)) (hagree'.fields.trans
    hagree.fields.symm)

end Definition

end ColumnMetadata
