import Mathlib.Data.List.Perm.Subperm
import ColumnMetadata.Project.Order

/-!
# Visiting nodes in the order of their dependencies

Each visited node stands behind all that it depends on, and no node is visited twice. Both hold
after every visit (`Visiting.step`), because a node that waits depends on visited nodes only: it was
made ready by the visit of the last of them. No node is forgotten either: one that depends on
visited nodes only was visited or waits. At the end none waits (`visiting_visited`), so exactly the
nodes are visited whose dependencies are (`mem_visited_iff`).
-/

namespace ColumnMetadata.Order

variable {dependencies : Nat → List Nat} {nodes waiting visited : List Nat}

/-- Each node stands behind the nodes that it depends on. -/
def Ordered (dependencies : Nat → List Nat) (ids : List Nat) : Prop :=
  ∀ before id after, ids = before ++ id :: after → ∀ d ∈ dependencies id, d ∈ before

theorem Ordered.nil : Ordered dependencies [] := by
  intro before id after h
  cases before <;> cases h

theorem Ordered.concat {ids : List Nat} (h : Ordered dependencies ids) {id : Nat}
    (hid : ∀ d ∈ dependencies id, d ∈ ids) : Ordered dependencies (ids ++ [id]) := by
  intro before n after he
  rcases List.eq_nil_or_concat after with rfl | ⟨after, last, rfl⟩
  · obtain ⟨rfl, hn⟩ := List.append_inj' he rfl
    cases hn
    exact hid
  · rw [List.concat_eq_append, ← List.cons_append, ← List.append_assoc] at he
    exact h before n after (List.append_inj' he rfl).1

theorem Ordered.mem {ids : List Nat} (h : Ordered dependencies ids) {id : Nat} (hid : id ∈ ids)
    {d : Nat} (hd : d ∈ dependencies id) : d ∈ ids := by
  obtain ⟨before, after, rfl⟩ := List.append_of_mem hid
  exact List.mem_append_left _ (h before id after rfl d hd)

theorem Ordered.idxOf_lt {ids : List Nat} (h : Ordered dependencies ids) {id d : Nat}
    (hid : id ∈ ids) (hd : d ∈ dependencies id) : ids.idxOf d < ids.idxOf id := by
  obtain ⟨before, after, hids, hfirst⟩ := List.eq_append_cons_of_mem hid
  have hbefore := h before id after hids d hd
  rw [hids, List.idxOf_append, if_pos hbefore, List.idxOf_append, if_neg hfirst,
    List.idxOf_cons_self, Nat.zero_add]
  exact List.idxOf_lt_length_of_mem hbefore

/-- What holds while nodes are visited. -/
structure Visiting (dependencies : Nat → List Nat) (nodes waiting visited : List Nat) : Prop where
  nodup : (visited ++ waiting).Nodup
  mem : ∀ n ∈ visited ++ waiting, n ∈ nodes
  ready : ∀ n ∈ waiting, ∀ d ∈ dependencies n, d ∈ visited
  ordered : Ordered dependencies visited
  complete : ∀ n ∈ nodes, (∀ d ∈ dependencies n, d ∈ visited) → n ∈ visited ++ waiting

theorem Visiting.start (h : nodes.Nodup) :
    Visiting dependencies nodes (nodes.filter fun n => (dependencies n).isEmpty) [] where
  nodup := h.filter _
  mem _ hn := (List.mem_filter.1 hn).1
  ready n hn d hd := by
    rw [List.isEmpty_iff.1 (List.mem_filter.1 hn).2] at hd
    cases hd
  ordered := .nil
  complete n hn hdependencies := by
    have hempty : dependencies n = [] :=
      List.eq_nil_iff_forall_not_mem.2 fun d hd => List.not_mem_nil (hdependencies d hd)
    simp [hn, hempty]

theorem mem_madeReady {id n : Nat} : n ∈ madeReady dependencies nodes visited id ↔
    n ∈ nodes ∧ id ∈ dependencies n ∧ ∀ d ∈ dependencies n, d ∈ visited := by
  simp [madeReady]

/-- What a visit makes ready was neither visited nor waiting. -/
theorem Visiting.not_mem_madeReady {id : Nat}
    (h : Visiting dependencies nodes (id :: waiting) visited) {n : Nat}
    (hn : n ∈ visited ++ id :: waiting) :
    n ∉ madeReady dependencies nodes (visited ++ [id]) id := by
  intro hready
  have hid := (mem_madeReady.1 hready).2.1
  -- Everything that `n` depends on has been visited before, but `id` is visited only now.
  have hvisited : id ∈ visited := by
    rcases List.mem_append.1 hn with hn | hn
    · exact h.ordered.mem hn hid
    · exact h.ready n hn id hid
  exact (List.nodup_append.1 h.nodup).2.2 id hvisited id List.mem_cons_self rfl

theorem Visiting.step (hnodes : nodes.Nodup) {id : Nat}
    (h : Visiting dependencies nodes (id :: waiting) visited) :
    Visiting dependencies nodes
      (waiting ++ madeReady dependencies nodes (visited ++ [id]) id) (visited ++ [id]) := by
  have happend : visited ++ [id] ++ (waiting ++ madeReady dependencies nodes (visited ++ [id]) id) =
      (visited ++ id :: waiting) ++ madeReady dependencies nodes (visited ++ [id]) id := by
    simp
  refine ⟨?_, ?_, ?_, h.ordered.concat (h.ready id List.mem_cons_self), ?_⟩
  · rw [happend, List.nodup_append]
    refine ⟨h.nodup, hnodes.filter _, ?_⟩
    rintro n hn _ hready rfl
    exact h.not_mem_madeReady hn hready
  · rw [happend]
    exact List.forall_mem_append.2 ⟨h.mem, fun n hn => (mem_madeReady.1 hn).1⟩
  · refine List.forall_mem_append.2 ⟨fun n hn d hd => ?_, fun n hn => (mem_madeReady.1 hn).2.2⟩
    exact List.mem_append_left _ (h.ready n (List.mem_cons_of_mem _ hn) d hd)
  · intro n hn hdependencies
    rw [happend]
    by_cases hid : id ∈ dependencies n
    · exact List.mem_append_right _ (mem_madeReady.2 ⟨hn, hid, hdependencies⟩)
    · -- Without `id` among them, all that `n` depends on had been visited before.
      refine List.mem_append_left _ (h.complete n hn fun d hd => ?_)
      rcases List.mem_append.1 (hdependencies d hd) with hvisited | hlast
      · exact hvisited
      · cases List.mem_singleton.1 hlast
        exact absurd hd hid

theorem Visiting.length_le (h : Visiting dependencies nodes waiting visited) :
    visited.length + waiting.length ≤ nodes.length := by
  rw [← List.length_append]
  exact (List.subperm_of_subset h.nodup h.mem).length_le

/-- What one visit keeps, enough visits keep until no node is waiting. -/
theorem visit_induction {P : List Nat → List Nat → Prop}
    (hvisiting : ∀ {waiting visited}, P waiting visited →
      Visiting dependencies nodes waiting visited)
    (hstep : ∀ {id waiting visited}, P (id :: waiting) visited →
      P (waiting ++ madeReady dependencies nodes (visited ++ [id]) id) (visited ++ [id]))
    (visits : Nat) (h : P waiting visited) (hvisits : nodes.length ≤ visits + visited.length) :
    P [] (Order.visit dependencies nodes visits waiting visited) := by
  induction visits generalizing waiting visited with
  | zero =>
    have hlength := (hvisiting h).length_le
    have hwaiting : waiting = [] := List.eq_nil_of_length_eq_zero (by omega)
    rw [hwaiting] at h ⊢
    exact h
  | succ visits ih =>
    cases waiting with
    | nil => exact h
    | cons id waiting =>
      refine ih (hstep h) ?_
      rw [List.length_append, List.length_singleton]
      omega

theorem visiting_visited (dependencies : Nat → List Nat) (hnodes : nodes.Nodup) :
    Visiting dependencies nodes [] (Order.visited dependencies nodes) :=
  visit_induction id (fun h => h.step hnodes) nodes.length (Visiting.start hnodes) (Nat.le_refl _)

theorem nodup_visited (hnodes : nodes.Nodup) : (Order.visited dependencies nodes).Nodup := by
  simpa using (visiting_visited dependencies hnodes).nodup

theorem mem_nodes_of_mem_visited (hnodes : nodes.Nodup) {n : Nat}
    (hn : n ∈ Order.visited dependencies nodes) : n ∈ nodes :=
  (visiting_visited dependencies hnodes).mem n (List.mem_append_left _ hn)

theorem ordered_visited (hnodes : nodes.Nodup) :
    Ordered dependencies (Order.visited dependencies nodes) :=
  (visiting_visited dependencies hnodes).ordered

/-- A node is visited when all that it depends on is. -/
theorem mem_visited_iff (hnodes : nodes.Nodup) {n : Nat} (hn : n ∈ nodes) :
    n ∈ Order.visited dependencies nodes ↔
      ∀ d ∈ dependencies n, d ∈ Order.visited dependencies nodes := by
  constructor
  · intro hvisited d hd
    exact (ordered_visited hnodes).mem hvisited hd
  · intro h
    simpa using (visiting_visited dependencies hnodes).complete n hn h

/-- When no node is blocked, all nodes are visited. -/
theorem mem_visited_of_blocked_eq_nil (h : blocked dependencies nodes = []) {n : Nat}
    (hn : n ∈ nodes) : n ∈ Order.visited dependencies nodes := by
  have hvisited := List.filter_eq_nil_iff.1 h n hn
  simpa using hvisited

end ColumnMetadata.Order
