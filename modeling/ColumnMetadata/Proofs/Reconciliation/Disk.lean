import ColumnMetadata.Proofs.Files.Outline
import ColumnMetadata.Proofs.Reconciliation.Merging
import Mathlib.Data.List.Forall2

/-!
# What a run leaves in the tree and in the report

Each node that is dealt with has one outcome (`Reconciliation.Ends`): it is skipped without a block
or a table, unchanged when its text stays the same, updated when its new text stands at the place of
its file, and failed when no file stands there or the system refuses to replace it. Since different
nodes have different places, what was written for one of them is not overwritten for another, and a
place where something else is seen than before is that of an updated file
(`Reconciliation.concluded_foldl`).
-/

namespace ColumnMetadata

/-! ## Lists with related elements -/

section Related

variable {α β : Type} {R : α → β → Prop} {xs : List α} {ys : List β} (h : List.Forall₂ R xs ys)

include h in
theorem exists_right_of_forall₂ {x : α} (hx : x ∈ xs) : ∃ y ∈ ys, R x y := by
  induction h with
  | nil => cases hx
  | @cons x' y' _ _ hxy _ ih =>
    rcases List.mem_cons.1 hx with rfl | hx
    · exact ⟨y', List.mem_cons_self, hxy⟩
    · obtain ⟨y, hy, hr⟩ := ih hx
      exact ⟨y, List.mem_cons_of_mem y' hy, hr⟩

include h in
theorem exists_left_of_forall₂ {y : β} (hy : y ∈ ys) : ∃ x ∈ xs, R x y := by
  induction h with
  | nil => cases hy
  | @cons x' y' _ _ hxy _ ih =>
    rcases List.mem_cons.1 hy with rfl | hy
    · exact ⟨x', List.mem_cons_self, hxy⟩
    · obtain ⟨x, hx, hr⟩ := ih hy
      exact ⟨x, List.mem_cons_of_mem x' hx, hr⟩

theorem eq_map_of_forall₂ {γ : Type} {S : α → γ → Prop} {f : β → γ}
    (h : List.Forall₂ R xs ys) {zs : List γ} (h' : List.Forall₂ S xs zs)
    (hf : ∀ x ∈ xs, ∀ y z, R x y → S x z → z = f y) : zs = ys.map f := by
  induction h generalizing zs with
  | nil =>
    cases h'
    rfl
  | cons hxy _ ih =>
    obtain ⟨hx, hxs⟩ := List.forall_mem_cons.1 hf
    cases h' with
    | cons hxz hs => rw [List.map_cons, hx _ _ hxy hxz, ih hs hxs]

end Related

namespace Reconciliation

open Node (look)

/-! ## One node -/

variable (r : Reconciliation) (refused : Refusals) (tables : List WarehouseTable)

/-- The text with the block of a node written anew, when there are a block and a table. -/
def rewritten? (n : GraphNode Definition) (cs : Columns) : Option String :=
  match n.content.block, findTable? tables n.action.target.schema n.action.target.name with
  | some b, some _ => some (String.ofList (b.replace (n.content.withColumns cs).metadata.render))
  | _, _ => none

theorem rewritten?_eq_some {tables : List WarehouseTable} {n : GraphNode Definition}
    {cs : Columns} {new : String} :
    rewritten? tables n cs = some new ↔ ∃ b table, n.content.block = some b ∧
      findTable? tables n.action.target.schema n.action.target.name = some table ∧
      new = String.ofList (b.replace (n.content.withColumns cs).metadata.render) := by
  unfold rewritten?
  constructor
  · intro h
    split at h
    · next b table hblock htable =>
      cases h
      exact ⟨b, table, hblock, htable, rfl⟩
    · cases h
  · rintro ⟨b, table, hblock, htable, rfl⟩
    rw [hblock, htable]

/-- Why a node without new text is skipped. -/
def skipCode (n : GraphNode Definition) : DiagnosticCode :=
  if n.content.block.isNone then .configBlockMissing else .warehouseTableMissing

theorem conclude_of_rewritten {n : GraphNode Definition} {cs : Columns} {new : String}
    (h : rewritten? tables n cs = some new) (s : FileTree × Report) :
    r.conclude refused tables n cs s = r.writeFile refused n.action.fileName n.content.text new s := by
  obtain ⟨b, table, hblock, htable, rfl⟩ := rewritten?_eq_some.1 h
  rw [conclude, hblock, htable]

theorem conclude_of_not_rewritten {n : GraphNode Definition} {cs : Columns}
    (h : rewritten? tables n cs = none) (s : FileTree × Report) :
    (r.conclude refused tables n cs s).1 = s.1 ∧
      (r.conclude refused tables n cs s).2.files =
        s.2.files ++ [⟨n.action.fileName, .skipped, some (skipCode n).name⟩] := by
  unfold conclude skipCode
  dsimp only
  cases hblock : n.content.block with
  | none => exact ⟨rfl, rfl⟩
  | some b =>
    cases htable : findTable? tables n.action.target.schema n.action.target.name with
    | none => exact ⟨rfl, rfl⟩
    | some table =>
      rw [rewritten?, hblock, htable] at h
      cases h

/-- What writing does: one outcome is added to the report, and the tree changes only if the file is
updated. -/
theorem writeFile_cases (file old new : String) (s : FileTree × Report) :
    (new = old ∧ (r.writeFile refused file old new s).1 = s.1 ∧
      (r.writeFile refused file old new s).2.files = s.2.files ++ [⟨file, .unchanged, none⟩]) ∨
    (new ≠ old ∧
      s.1.replaceText refused (r.configuration.resolve file) new =
        .ok (r.writeFile refused file old new s).1 ∧
      (r.writeFile refused file old new s).2.files = s.2.files ++ [⟨file, .updated, none⟩]) ∨
    (new ≠ old ∧ (r.writeFile refused file old new s).1 = s.1 ∧
      (∃ cause, s.1.replaceText refused (r.configuration.resolve file) new = .error cause) ∧
      (r.writeFile refused file old new s).2.files =
        s.2.files ++ [⟨file, .failed, some DiagnosticCode.writeFailed.name⟩]) := by
  unfold writeFile
  by_cases hsame : new = old
  · rw [if_pos hsame]
    exact .inl ⟨hsame, rfl, rfl⟩
  · rw [if_neg hsame]
    cases s.1.replaceText refused (r.configuration.resolve file) new with
    | ok tree => exact .inr (.inl ⟨hsame, rfl, rfl⟩)
    | error cause => exact .inr (.inr ⟨hsame, rfl, ⟨cause, rfl⟩, rfl⟩)

variable (g : DefinitionGraph Definition) (final : Nat → Columns)

/-- How a node ended, in a tree that was another one when the run began to write. -/
inductive Ends (before tree : FileTree) (id : Nat) : FileOutcome → Prop
  | skipped {n : GraphNode Definition} (hn : g.node? id = some n)
      (h : rewritten? tables n (final id) = none) :
      Ends before tree id ⟨n.action.fileName, .skipped, some (skipCode n).name⟩
  | unchanged {n : GraphNode Definition} {new : String} (hn : g.node? id = some n)
      (h : rewritten? tables n (final id) = some new) (hsame : new = n.content.text) :
      Ends before tree id ⟨n.action.fileName, .unchanged, none⟩
  | updated {n : GraphNode Definition} {new : String} {place : List String}
      (hn : g.node? id = some n) (h : rewritten? tables n (final id) = some new)
      (hchange : new ≠ n.content.text)
      (hplace : before.locate (r.configuration.resolve n.action.fileName) = .ok place)
      (hfree : refused place = none) (hlook : look place tree.top = some (some (.text new))) :
      Ends before tree id ⟨n.action.fileName, .updated, none⟩
  | failed {n : GraphNode Definition} {new : String} (hn : g.node? id = some n)
      (h : rewritten? tables n (final id) = some new) (hchange : new ≠ n.content.text)
      (hcause : ∀ place c,
        before.locate (r.configuration.resolve n.action.fileName) = .ok place →
          look place before.top = some (some c) → (refused place).isSome = true) :
      Ends before tree id ⟨n.action.fileName, .failed, some DiagnosticCode.writeFailed.name⟩

/-! ## All nodes -/

/-- The place of a node's file in a tree. -/
def IsPlace (tree : FileTree) (id : Nat) (place : List String) : Prop :=
  ∃ n, g.node? id = some n ∧
    tree.locate (r.configuration.resolve n.action.fileName) = .ok place

/-- Different nodes have different places, in every tree. -/
def Apart (ids : List Nat) : Prop :=
  ∀ tree, ∀ i ∈ ids, ∀ j ∈ ids, ∀ place, r.IsPlace g tree i place → r.IsPlace g tree j place → i = j

/-- What holds when some nodes have been dealt with. -/
structure Concluded (before : FileTree × Report) (done : List Nat) (s : FileTree × Report) :
    Prop where
  directories : FileTree.SameDirectories before.1 s.1
  outcomes : ∃ os, s.2.files = before.2.files ++ os ∧
    List.Forall₂ (r.Ends refused tables g final before.1 s.1) done os
  changed : ∀ q, look q s.1.top ≠ look q before.1.top → ∃ id ∈ done, r.IsPlace g before.1 id q ∧
    ∃ o ∈ s.2.files, o.status = .updated ∧ r.Ends refused tables g final before.1 s.1 id o
  tree : (∀ o ∈ s.2.files, o.status ≠ .updated) → s.1 = before.1
  /-- Files that are there are replaced by files. -/
  shape : (∀ id ∈ done, ∀ n, g.node? id = some n →
    ∃ text, before.1.readText (r.configuration.resolve n.action.fileName) = .ok text) →
    before.1.SameShape s.1

theorem Concluded.start (s : FileTree × Report) : r.Concluded refused tables g final s [] s where
  directories := .refl s.1
  outcomes := ⟨[], (List.append_nil _).symm, .nil⟩
  changed _ h := absurd rfl h
  tree _ := rfl
  shape _ := .refl s.1

variable {r refused tables g final}

/-- A node that has ended is not affected by what happens at other places. -/
theorem Ends.mono {before tree tree' : FileTree} {id : Nat} {o : FileOutcome}
    (h : r.Ends refused tables g final before tree id o)
    (hlook : ∀ place, r.IsPlace g before id place → look place tree'.top = look place tree.top) :
    r.Ends refused tables g final before tree' id o := by
  cases h with
  | skipped hn h => exact .skipped hn h
  | unchanged hn h hsame => exact .unchanged hn h hsame
  | updated hn h hchange hplace hfree hl =>
    exact .updated hn h hchange hplace hfree ((hlook _ ⟨_, hn, hplace⟩).trans hl)
  | failed hn h hchange hcause => exact .failed hn h hchange hcause

section Step

variable {before s : FileTree × Report} {done : List Nat}
  (h : r.Concluded refused tables g final before done s)

include h in
theorem Concluded.exists_outcome {id : Nat} (hid : id ∈ done) :
    ∃ o ∈ s.2.files, r.Ends refused tables g final before.1 s.1 id o := by
  obtain ⟨os, hos, hends⟩ := h.outcomes
  obtain ⟨o, ho, hr⟩ := exists_right_of_forall₂ hends hid
  exact ⟨o, hos ▸ List.mem_append_right _ ho, hr⟩

include h in
theorem Concluded.mem_files {o : FileOutcome} (ho : o ∈ s.2.files) :
    o ∈ before.2.files ∨ ∃ id ∈ done, r.Ends refused tables g final before.1 s.1 id o := by
  obtain ⟨os, hos, hends⟩ := h.outcomes
  rw [hos] at ho
  exact (List.mem_append.1 ho).imp_right fun ho => exists_left_of_forall₂ hends ho

include h in
/-- A node that ends without a change of the tree. -/
theorem Concluded.step_of_eq {id : Nat} {s' : FileTree × Report} {o : FileOutcome}
    (htree : s'.1 = s.1) (hfiles : s'.2.files = s.2.files ++ [o])
    (ho : r.Ends refused tables g final before.1 s.1 id o) :
    r.Concluded refused tables g final before (done ++ [id]) s' := by
  obtain ⟨os, hos, hends⟩ := h.outcomes
  refine ⟨htree ▸ h.directories, ⟨os ++ [o], ?_, ?_⟩, fun q hq => ?_, fun hnone => ?_,
    fun hread => htree ▸ h.shape fun j hj => hread j (List.mem_append_left _ hj)⟩
  · rw [hfiles, hos, List.append_assoc]
  · rw [htree]
    exact List.rel_append hends (.cons ho .nil)
  · rw [htree] at hq ⊢
    obtain ⟨j, hj, hj', o', ho', hchanged⟩ := h.changed q hq
    exact ⟨j, List.mem_append_left _ hj, hj', o', hfiles ▸ List.mem_append_left _ ho', hchanged⟩
  · rw [hfiles] at hnone
    exact htree.trans (h.tree fun o' ho' => hnone o' (List.mem_append_left _ ho'))

include h in
/-- A node whose file is written, at a place that is that of no node dealt with before. -/
theorem Concluded.step_of_write {id : Nat} {n : GraphNode Definition} {new : String}
    {s' : FileTree × Report} (hn : g.node? id = some n)
    (hnew : rewritten? tables n (final id) = some new) (hchange : new ≠ n.content.text)
    (hwrite : s.1.replaceText refused (r.configuration.resolve n.action.fileName) new = .ok s'.1)
    (hfiles : s'.2.files = s.2.files ++ [⟨n.action.fileName, .updated, none⟩])
    (hapart : ∀ j ∈ done, ∀ place, r.IsPlace g before.1 j place →
      ¬r.IsPlace g before.1 id place) :
    r.Concluded refused tables g final before (done ++ [id]) s' := by
  obtain ⟨hdirectories, place, hplace, hfree, hlook⟩ := FileTree.look_of_replaceText hwrite
  have hplace' := h.directories.symm.locate hplace
  have hid : r.IsPlace g before.1 id place := ⟨n, hn, hplace'⟩
  have hlast : ⟨n.action.fileName, .updated, none⟩ ∈ s'.2.files :=
    hfiles ▸ List.mem_append_right _ (List.mem_singleton.2 rfl)
  have hends : r.Ends refused tables g final before.1 s'.1 id ⟨n.action.fileName, .updated, none⟩ :=
    .updated hn hnew hchange hplace' hfree (by rw [hlook, if_pos rfl])
  have hmono : ∀ j ∈ done, ∀ o, r.Ends refused tables g final before.1 s.1 j o →
      r.Ends refused tables g final before.1 s'.1 j o := by
    intro j hj o ho
    refine ho.mono fun place' hj' => ?_
    rw [hlook, if_neg]
    rintro rfl
    exact hapart j hj _ hj' hid
  obtain ⟨os, hos, hall⟩ := h.outcomes
  refine ⟨h.directories.trans hdirectories,
    ⟨os ++ [⟨n.action.fileName, .updated, none⟩], ?_, ?_⟩, fun q hq => ?_, fun hnone => ?_,
    fun hread => ?_⟩
  · rw [hfiles, hos, List.append_assoc]
  · have hdone := (List.forall₂_and_left done os).2 ⟨fun _ hj => hj, hall⟩
    exact List.rel_append (hdone.imp fun j o ho => hmono j ho.1 o ho.2) (.cons hends .nil)
  · by_cases hqp : q = place
    · subst hqp
      exact ⟨id, List.mem_append_right _ (List.mem_singleton.2 rfl), hid, _, hlast, rfl, hends⟩
    · rw [hlook, if_neg hqp] at hq
      obtain ⟨j, hj, hj', o, ho, hstatus, hjo⟩ := h.changed q hq
      exact ⟨j, List.mem_append_left _ hj, hj', o, hfiles ▸ List.mem_append_left _ ho, hstatus,
        hmono j hj o hjo⟩
  · exact absurd rfl (hnone _ hlast)
  · obtain ⟨text, htext⟩ := hread id (List.mem_append_right _ (List.mem_singleton.2 rfl)) n hn
    have hshape := h.shape fun j hj => hread j (List.mem_append_left _ hj)
    exact hshape.replaceText htext hwrite

end Step

/-- Dealing with one more node. -/
theorem Concluded.step {before s : FileTree × Report} {done : List Nat} {id : Nat}
    {n : GraphNode Definition} (h : r.Concluded refused tables g final before done s)
    (hn : g.node? id = some n)
    (hapart : ∀ j ∈ done, ∀ place, r.IsPlace g before.1 j place →
      ¬r.IsPlace g before.1 id place) :
    r.Concluded refused tables g final before (done ++ [id])
      (r.concludeNode refused tables g final s id) := by
  have hnode : r.concludeNode refused tables g final s id =
      r.conclude refused tables n (final id) s := by
    rw [concludeNode, hn]
  rw [hnode]
  cases hnew : rewritten? tables n (final id) with
  | none =>
    obtain ⟨htree, hfiles⟩ := r.conclude_of_not_rewritten refused tables hnew s
    exact h.step_of_eq htree hfiles (.skipped hn hnew)
  | some new =>
    rw [r.conclude_of_rewritten refused tables hnew]
    rcases r.writeFile_cases refused n.action.fileName n.content.text new s with
      ⟨hsame, htree, hfiles⟩ | ⟨hchange, hwrite, hfiles⟩ | ⟨hchange, htree, ⟨cause, hwrite⟩, hfiles⟩
    · exact h.step_of_eq htree hfiles (.unchanged hn hnew hsame)
    · exact h.step_of_write hn hnew hchange hwrite hfiles hapart
    · refine h.step_of_eq htree hfiles (.failed hn hnew hchange fun place c hplace hlook => ?_)
      -- The place is that of no other node, so the file still stands there and only the system can
      -- have kept it.
      have hkept : look place s.1.top = look place before.1.top := by
        refine Decidable.byContradiction fun hq => ?_
        obtain ⟨j, hj, hj', -⟩ := h.changed place hq
        exact hapart j hj place hj' ⟨n, hn, hplace⟩
      rw [FileTree.replaceText_of_file (h.directories.locate hplace) (hkept.trans hlook)] at hwrite
      split at hwrite
      · next hrefused => rw [hrefused, Option.isSome_some]
      · cases hwrite

/-- Dealing with all nodes of a list. -/
theorem concluded_foldl {ids : List Nat} (hnodup : ids.Nodup)
    (hnodes : ∀ id ∈ ids, ∃ n, g.node? id = some n) (hapart : r.Apart g ids)
    (before : FileTree × Report) :
    r.Concluded refused tables g final before ids
      (ids.foldl (r.concludeNode refused tables g final) before) := by
  suffices hrest : ∀ (done rest : List Nat) (s : FileTree × Report), ids = done ++ rest →
      r.Concluded refused tables g final before done s →
      r.Concluded refused tables g final before ids
        (rest.foldl (r.concludeNode refused tables g final) s) from
    hrest [] ids before rfl (.start r refused tables g final before)
  intro done rest
  induction rest generalizing done with
  | nil =>
    intro s he h
    rw [List.append_nil] at he
    exact he ▸ h
  | cons id rest ih =>
    intro s he h
    have hid : id ∈ ids := he ▸ List.mem_append_right _ List.mem_cons_self
    obtain ⟨n, hn⟩ := hnodes id hid
    refine ih (done ++ [id]) _ (by rw [he, List.append_assoc]; rfl) (h.step hn ?_)
    intro j hj place hj' hid'
    rw [he] at hnodup
    have hne := (List.nodup_append.1 hnodup).2.2 j hj id List.mem_cons_self
    exact hne (hapart before.1 j (he ▸ List.mem_append_left _ hj) id hid place hj' hid')

end Reconciliation

end ColumnMetadata
