import ColumnMetadata.Proofs.Reconciliation.Solution

/-!
# Reading the files that a run has left

When nothing else changes the tree, all files are there after a run, and the same files can be
loaded as before (`Reconciliation.Concluded.map_load`). When no write is refused either, what is
loaded from the file of a node is what was loaded before, or what was written for it
(`Reconciliation.Reread`, `Reconciliation.Concluded.reread`).
-/

namespace ColumnMetadata

open Node (look)

/-- The file with columns written into its block, when metadata are what is read from there. -/
def Definition.written (d : Definition) (b : Block) (cs : Columns) (m : Metadata) : Definition :=
  ⟨String.ofList (b.replace (d.withColumns cs).metadata.render),
    some (b.rewritten (d.withColumns cs).metadata), m⟩

namespace Reconciliation

/-! ## Loading -/

section Loading

variable {r : Reconciliation} {t u : FileTree} {a : ActionDescriptor}

/-- A file with a block is loaded under either policy. -/
theorem load_of_parse {text : String} {d : Definition}
    (htext : t.readText (r.configuration.resolve a.fileName) = .ok text)
    (hparse : Definition.parse text = .ok d) (hblock : d.block.isSome = true) :
    r.load t a = .ok d := by
  refine bind_eq_ok.2 ⟨text, mapError_eq_ok.2 htext,
    bind_eq_ok.2 ⟨d, mapError_eq_ok.2 hparse, ?_⟩⟩
  unfold MissingBlockPolicy.admit
  split
  · next hnone =>
    rw [hnone] at hblock
    cases hblock
  · rfl

/-- What is loaded is the same where the same is seen. -/
theorem load_eq (hshape : t.SameShape u)
    (hlook : ∀ q, t.locate (r.configuration.resolve a.fileName) = .ok q →
      look q u.top = look q t.top) : r.load u a = r.load t a := by
  unfold load
  rw [hshape.readText_eq hlook]

end Loading

variable (tables : List WarehouseTable)

/-- What is read from a new text: the metadata that was written, in the same place. -/
theorem exists_parse_written {d : Definition} {b : Block} {cs : Columns}
    (hparse : Definition.parse d.text = .ok d) (hblock : d.block = some b)
    (hwell : d.metadata.WellFormed) (hcs : cs.WellFormed) :
    ∃ m, Definition.parse (d.written b cs m).text = .ok (d.written b cs m) ∧
      (d.withColumns cs).metadata.Agree m ∧ m.WellFormed := by
  obtain ⟨-, hlocated, -⟩ := Definition.parse_block hparse hblock
  exact Definition.exists_parse_replace hlocated (hwell.withColumns hcs)

/-- What is loaded for a node after a run that has come to columns for it. -/
inductive Reread (n : GraphNode Definition) (cs : Columns) : Definition → Prop
  | kept (h : n.requested = true → rewritten? tables n cs = none) : Reread n cs n.content
  | written {b : Block} {table : WarehouseTable} {m : Metadata} (hrequested : n.requested = true)
      (hblock : n.content.block = some b)
      (htable : findTable? tables n.action.target.schema n.action.target.name = some table)
      (hagree : (n.content.withColumns cs).metadata.Agree m) (hwell : m.WellFormed) :
      Reread n cs (n.content.written b cs m)

/-! ## After a run -/

section Concluded

variable {r : Reconciliation} {refused : Refusals} {t : FileTree} {path : String} {p : Plan}
  {tables : List WarehouseTable} {final : Nat → Columns} {s : FileTree × Report} {report : Report}
  (hmade : p.Made r t path)
  (h : r.Concluded refused tables p.build.graph final (t, report) p.order s)

include hmade h in
/-- All files are still there. -/
theorem Concluded.sameShape : t.SameShape s.1 :=
  h.shape fun _ _ _ hn => ⟨_, (of_load (hmade.loaded hn)).1⟩

include hmade in
/-- The text of a node's file stood at its place. -/
theorem look_of_isPlace {id : Nat} {n : GraphNode Definition} {place : List String}
    (hn : p.build.graph.node? id = some n)
    (hplace : t.locate (r.configuration.resolve n.action.fileName) = .ok place) :
    look place t.top = some (some (.text n.content.text)) := by
  obtain ⟨place', hplace', hlook⟩ := FileTree.readText_eq_ok.1 (of_load (hmade.loaded hn)).1
  rw [hplace] at hplace'
  cases hplace'
  exact hlook

include hmade in
/-- When nothing is refused, no writing fails. -/
theorem Ends.status_ne_failed {tree : FileTree} {id : Nat} {o : FileOutcome}
    (h : r.Ends (fun _ => none) tables p.build.graph final t tree id o) : o.status ≠ .failed := by
  cases h with
  | failed hn _ _ hcause =>
    obtain ⟨place, hplace, hlook⟩ := FileTree.readText_eq_ok.1 (of_load (hmade.loaded hn)).1
    exact absurd (hcause place _ hplace hlook) nofun
  | _ => exact nofun

/-- What is known of the files of a project: no place of a requested node is that of another one,
and all that was read is well formed. -/
structure Regular (r : Reconciliation) (t : FileTree) (p : Plan) (final : Nat → Columns) : Prop where
  apart : ∀ i, ∀ j ∈ p.order, ∀ place, r.IsPlace p.build.graph t i place →
    r.IsPlace p.build.graph t j place → i = j
  metadata : ∀ id n, p.build.graph.node? id = some n → n.content.metadata.WellFormed
  final : ∀ id, (final id).WellFormed

variable (hregular : r.Regular t p final)

include hmade hregular in
/-- When nothing is refused, there is something to load again for each node. -/
theorem Concluded.reread
    (h : r.Concluded (fun _ => none) tables p.build.graph final (t, report) p.order s) {id : Nat}
    {n : GraphNode Definition} (hn : p.build.graph.node? id = some n) :
    ∃ d, r.load s.1 n.action = .ok d ∧ Reread tables n (final id) d := by
  by_cases hkept : n.requested = true → rewritten? tables n (final id) = none
  · refine ⟨n.content, ?_, .kept hkept⟩
    rw [load_eq (h.sameShape hmade) fun q hq => ?_, hmade.loaded hn]
    refine Decidable.byContradiction fun hchanged => ?_
    -- An update at this place would be that of the node, but there is no new text for it.
    obtain ⟨j, hj, hjplace, o, -, hstatus, hends⟩ := h.changed q hchanged
    obtain rfl := hregular.apart id j hj q ⟨n, hn, hq⟩ hjplace
    obtain ⟨n', hn', hrequested⟩ := hmade.exists_node hj
    rw [hn] at hn'
    cases hn'
    cases hends with
    | updated hn' hnew _ _ _ _ =>
      rw [hn] at hn'
      cases hn'
      rw [hkept hrequested] at hnew
      cases hnew
    | _ => cases hstatus
  · obtain ⟨hrequested, hsome⟩ := Classical.not_imp.1 hkept
    obtain ⟨new, hnew⟩ := Option.ne_none_iff_exists'.1 hsome
    obtain ⟨htext, hparse⟩ := of_load (hmade.loaded hn)
    obtain ⟨b, table, hblock, htable, rfl⟩ := rewritten?_eq_some.1 hnew
    obtain ⟨m, hread, hagree, hwell⟩ :=
      exists_parse_written hparse hblock (hregular.metadata id n hn) (hregular.final id)
    have hid := hmade.mem_order hn hrequested
    obtain ⟨o, -, hends⟩ := h.exists_outcome hid
    have hwritten := h.readText (fun i _ j hj => hregular.apart i j hj) hid hn hnew hends
      (hends.status_ne_failed hmade) fun _ => htext
    exact ⟨_, load_of_parse hwritten hread rfl, .written hrequested hblock htable hagree hwell⟩

include hmade h hregular in
/-- The same files can be loaded as before, and where one cannot, the reason is the same. -/
theorem Concluded.map_load (a : ActionDescriptor) :
    (r.load s.1 a).map (fun _ => ()) = (r.load t a).map fun _ => () := by
  have hshape := h.sameShape hmade
  by_cases hsame : ∀ q, t.locate (r.configuration.resolve a.fileName) = .ok q →
      look q s.1.top = look q t.top
  · rw [load_eq hshape hsame]
  · obtain ⟨q, hsame⟩ := Classical.not_forall.1 hsame
    obtain ⟨hq, hchanged⟩ := Classical.not_imp.1 hsame
    -- The place is that of an updated node, whose old and new text can both be read.
    obtain ⟨j, hj, ⟨n, hn, hplace⟩, o, -, hstatus, hends⟩ := h.changed q hchanged
    cases hends with
    | updated hn' hnew _ hplace' _ hlook =>
      rw [hn] at hn'
      cases hn'
      rw [hplace] at hplace'
      cases hplace'
      have hparse := (of_load (hmade.loaded hn)).2
      obtain ⟨b, -, hblock, -, rfl⟩ := rewritten?_eq_some.1 hnew
      obtain ⟨m, hread, -⟩ :=
        exists_parse_written hparse hblock (hregular.metadata j n hn) (hregular.final j)
      have hold := FileTree.readText_eq_ok.2 ⟨q, hq, look_of_isPlace hmade hn hplace⟩
      have hnow := FileTree.readText_eq_ok.2 ⟨q, (hshape.locate_eq _).trans hq, hlook⟩
      rw [load_of_parse hold hparse (by rw [hblock]; rfl), load_of_parse hnow hread rfl]
      rfl
    | _ => cases hstatus

end Concluded

end Reconciliation

end ColumnMetadata
