import Mathlib.Logic.Function.Basic
import ColumnMetadata.Proofs.Project.Graph

/-!
# Visiting nodes by counting

The order of dependencies in one pass over them: each node has the count of its dependencies that
are still to be visited, and a visit lowers the counts of the nodes that depend on the visited one.
A node whose count comes to zero waits behind the others. No count is lowered below zero, and the
nodes are visited in the order that looking up all dependencies at every visit gives
(`visitedByCounting_eq`), so that a graph's order is the one found by counting
(`DefinitionGraph.orderByCounting_eq`).
-/

namespace ColumnMetadata

namespace Order

variable {dependencies : Nat → List Nat} {nodes waiting visited : List Nat} {counts : Nat → Nat}

/-- The nodes that depend on a node, in the order of the nodes. One that names the node repeatedly is
repeated. -/
def children (dependencies : Nat → List Nat) (nodes : List Nat) (id : Nat) : List Nat :=
  nodes.flatMap fun n => List.replicate ((dependencies n).count id) n

/-- What changes while nodes are visited by counting. -/
structure Counting where
  /-- How often a node names a dependency that is still to be visited. -/
  counts : Nat → Nat
  waiting : List Nat

/-- Lowers the count of a node, which waits when the count comes to zero. A count of zero cannot be
lowered. -/
def Counting.lower (c : Counting) (n : Nat) : Option Counting :=
  if c.counts n = 0 then none
  else
    let left := c.counts n - 1
    some ⟨Function.update c.counts n left, if left = 0 then c.waiting ++ [n] else c.waiting⟩

/-- Visits the waiting nodes in turn until none waits. There is no result when a count is lowered
below zero, or when the visits that are allowed do not suffice. -/
def visitByCounting (children : Nat → List Nat) :
    Nat → (counts : Nat → Nat) → (waiting visited : List Nat) → Option (List Nat)
  | _, _, [], visited => some visited
  | 0, _, _ :: _, _ => none
  | visits + 1, counts, id :: waiting, visited => do
    let c ← (children id).foldlM Counting.lower ⟨counts, waiting⟩
    visitByCounting children visits c.counts c.waiting (visited ++ [id])

def visitedByCounting (dependencies : Nat → List Nat) (nodes : List Nat) : Option (List Nat) :=
  let counts n := (dependencies n).length
  visitByCounting (children dependencies nodes) nodes.length counts
    (nodes.filter fun n => counts n == 0) []

/-- How often a node names a dependency that is not among the visited nodes. -/
def pending (dependencies : Nat → List Nat) (visited : List Nat) (n : Nat) : Nat :=
  (dependencies n).countP fun d => !visited.contains d

theorem pending_eq_zero_iff {n : Nat} :
    pending dependencies visited n = 0 ↔ ∀ d ∈ dependencies n, d ∈ visited := by
  simp [pending, List.countP_eq_zero]

/-- A visit settles each mention of the visited node. -/
theorem pending_eq_count_add {id : Nat} (hid : id ∉ visited) (n : Nat) :
    pending dependencies visited n =
      (dependencies n).count id + pending dependencies (visited ++ [id]) n := by
  unfold pending
  induction dependencies n with
  | nil => rfl
  | cons d ds ih =>
    rw [List.countP_cons, List.countP_cons, List.count_cons, ih]
    by_cases hd : d = id
    · subst hd
      simp [hid]
      omega
    · simp [hd]
      omega

/-- A node's count can be lowered as often as it says, and the node waits once it comes to zero. -/
theorem lower_replicate (n count : Nat) (counts : Nat → Nat) (waiting : List Nat)
    (hcount : count ≤ counts n) :
    (List.replicate count n).foldlM Counting.lower ⟨counts, waiting⟩ =
      some ⟨Function.update counts n (counts n - count),
        waiting ++ if 0 < count ∧ counts n = count then [n] else []⟩ := by
  induction count generalizing counts waiting with
  | zero => simp
  | succ count ih =>
    have hlower : Counting.lower ⟨counts, waiting⟩ n =
        some ⟨Function.update counts n (counts n - 1),
          if counts n - 1 = 0 then waiting ++ [n] else waiting⟩ :=
      if_neg (show counts n ≠ 0 by omega)
    rw [List.replicate_succ, List.foldlM_cons, hlower, Option.bind_eq_bind, Option.bind_some,
      ih _ _ (by rw [Function.update_self]; omega), Function.update_self, Function.update_idem,
      Nat.sub_sub, Nat.add_comm 1 count]
    congr 2
    by_cases hlast : counts n = 1
    · obtain rfl : count = 0 := by omega
      simp [hlast]
    · rw [if_neg (by omega)]
      congr 1
      exact if_congr (by omega) rfl rfl

/-- The counts behind the visit of a node. -/
def lowered (dependencies : Nat → List Nat) (nodes : List Nat) (id : Nat) (counts : Nat → Nat)
    (n : Nat) : Nat :=
  if n ∈ nodes then counts n - (dependencies n).count id else counts n

/-- Lowering the count of the first node and then those of the others lowers all of them. -/
theorem lowered_cons {n : Nat} (id : Nat) (counts : Nat → Nat) (hn : n ∉ nodes) :
    lowered dependencies nodes id
        (Function.update counts n (counts n - (dependencies n).count id)) =
      lowered dependencies (n :: nodes) id counts := by
  funext m
  by_cases hm : m = n
  · subst hm
    simp [lowered, hn]
  · simp [lowered, hm]

/-- What lowering the counts of all children of a node comes to. -/
theorem lower_children (dependencies : Nat → List Nat) (id : Nat) (hnodes : nodes.Nodup)
    (counts : Nat → Nat) (waiting : List Nat)
    (hcounts : ∀ n ∈ nodes, (dependencies n).count id ≤ counts n) :
    (children dependencies nodes id).foldlM Counting.lower ⟨counts, waiting⟩ =
      some ⟨lowered dependencies nodes id counts,
        waiting ++ nodes.filter fun n =>
          decide (0 < (dependencies n).count id ∧ counts n = (dependencies n).count id)⟩ := by
  induction nodes generalizing counts waiting with
  | nil =>
    have hlowered : lowered dependencies [] id counts = counts := funext fun n => by simp [lowered]
    simp [children, hlowered]
  | cons n ns ih =>
    obtain ⟨hn, hns⟩ := List.nodup_cons.1 hnodes
    have hother : ∀ m ∈ ns, ∀ count, Function.update counts n count m = counts m := by
      intro m hm count
      have hne : m ≠ n := by
        rintro rfl
        exact hn hm
      exact Function.update_of_ne hne _ _
    have hfirst := lower_replicate n ((dependencies n).count id) counts waiting
      (hcounts n List.mem_cons_self)
    rw [children, List.flatMap_cons, List.foldlM_append, hfirst, Option.bind_eq_bind,
      Option.bind_some]
    refine (ih hns _ _ fun m hm => ?_).trans ?_
    · rw [hother m hm]
      exact hcounts m (List.mem_cons_of_mem _ hm)
    · congr 2
      · exact lowered_cons id counts hn
      · rw [List.append_assoc, List.filter_cons]
        congr 1
        rw [List.filter_congr fun m hm => by rw [hother m hm]]
        by_cases hready : 0 < (dependencies n).count id ∧ counts n = (dependencies n).count id
        · rw [if_pos hready, if_pos (decide_eq_true hready), List.singleton_append]
        · rw [if_neg hready, if_neg fun h => hready (of_decide_eq_true h), List.nil_append]

/-- The counts of the nodes tell how much of what they name is still to be visited. -/
def Tells (dependencies : Nat → List Nat) (nodes visited : List Nat) (counts : Nat → Nat) : Prop :=
  ∀ n ∈ nodes, counts n = pending dependencies visited n

/-- A visit lowers the counts to those behind it, and lets the nodes wait that it makes ready. -/
theorem Tells.visit (h : Tells dependencies nodes visited counts) (hnodes : nodes.Nodup) {id : Nat}
    (hid : id ∉ visited) (waiting : List Nat) :
    ∃ counts', Tells dependencies nodes (visited ++ [id]) counts' ∧
      (children dependencies nodes id).foldlM Counting.lower ⟨counts, waiting⟩ =
        some ⟨counts', waiting ++ madeReady dependencies nodes (visited ++ [id]) id⟩ := by
  have hpending : ∀ n ∈ nodes, counts n =
      (dependencies n).count id + pending dependencies (visited ++ [id]) n := by
    intro n hn
    rw [h n hn, pending_eq_count_add hid]
  refine ⟨lowered dependencies nodes id counts, fun n hn => ?_,
    (lower_children dependencies id hnodes counts waiting fun n hn => ?_).trans ?_⟩
  · rw [lowered, if_pos hn, hpending n hn, Nat.add_sub_cancel_left]
  · rw [hpending n hn]
    exact Nat.le_add_right _ _
  · congr 3
    refine List.filter_congr fun n hn => ?_
    rw [Bool.eq_iff_iff, decide_eq_true_iff, List.count_pos_iff, hpending n hn, Nat.add_eq_left,
      pending_eq_zero_iff]
    simp

/-- As long as the counts tell what is still to be visited, counting visits the nodes in the order
of the look-ups. -/
theorem visitByCounting_eq (hnodes : nodes.Nodup) (visits : Nat)
    (hcounts : Tells dependencies nodes visited counts)
    (hvisiting : Visiting dependencies nodes waiting visited)
    (hvisits : nodes.length ≤ visits + visited.length) :
    visitByCounting (children dependencies nodes) visits counts waiting visited =
      some (Order.visit dependencies nodes visits waiting visited) := by
  induction visits generalizing counts waiting visited with
  | zero =>
    have hlength := hvisiting.length_le
    obtain rfl : waiting = [] := List.eq_nil_of_length_eq_zero (by omega)
    rfl
  | succ visits ih =>
    cases waiting with
    | nil => rfl
    | cons id waiting =>
      have hid : id ∉ visited := fun hmem =>
        (List.nodup_append.1 hvisiting.nodup).2.2 id hmem id List.mem_cons_self rfl
      obtain ⟨counts', hcounts', hlower⟩ := hcounts.visit hnodes hid waiting
      rw [visitByCounting, hlower, Option.bind_eq_bind, Option.bind_some]
      refine ih hcounts' (hvisiting.step hnodes) ?_
      rw [List.length_append, List.length_singleton]
      omega

/-- Counting never lowers a count below zero, and visits the nodes in the order of the look-ups. -/
theorem visitedByCounting_eq (dependencies : Nat → List Nat) (hnodes : nodes.Nodup) :
    visitedByCounting dependencies nodes = some (Order.visited dependencies nodes) := by
  have hcounts : Tells dependencies nodes [] fun n => (dependencies n).length := by
    intro n _
    simp [pending]
  have hstart : (nodes.filter fun n => (dependencies n).length == 0) =
      nodes.filter fun n => (dependencies n).isEmpty :=
    List.filter_congr fun n _ => by cases dependencies n <;> rfl
  rw [visitedByCounting]
  simp only [hstart]
  exact visitByCounting_eq hnodes nodes.length hcounts (Visiting.start hnodes) (Nat.le_refl _)

/-- No node is blocked when as many are visited as there are. -/
theorem blocked_eq_nil_iff (dependencies : Nat → List Nat) (hnodes : nodes.Nodup) :
    blocked dependencies nodes = [] ↔
      (Order.visited dependencies nodes).length = nodes.length := by
  have hnodup : (Order.visited dependencies nodes).Nodup := nodup_visited hnodes
  constructor
  · intro h
    refine ((List.perm_ext_iff_of_nodup hnodup hnodes).2 fun n => ⟨?_, ?_⟩).length_eq
    · exact mem_nodes_of_mem_visited hnodes
    · exact mem_visited_of_blocked_eq_nil h
  · intro hlength
    have hperm : (Order.visited dependencies nodes).Perm nodes :=
      (List.subperm_of_subset hnodup fun n => mem_nodes_of_mem_visited hnodes).perm_of_length_le
        (Nat.le_of_eq hlength.symm)
    refine List.filter_eq_nil_iff.2 fun n hn => ?_
    simp [hperm.mem_iff.2 hn]

end Order

namespace DefinitionGraph

variable {α : Type}

/-- The order of the requested nodes found by counting: if some nodes are not visited, their files
stand in the way. -/
def orderByCounting (g : DefinitionGraph α) : Option (Except (List String) (List Nat)) := do
  let visited ← Order.visitedByCounting g.requestedDependencies g.requested
  if visited.length = g.requested.length then some (.ok visited)
  else some (.error ((g.requested.filter fun n => !visited.contains n).map g.file))

/-- A graph's order is the one found by counting. -/
theorem orderByCounting_eq (g : DefinitionGraph α) : g.orderByCounting = some g.order := by
  have hnodes : g.requested.Nodup := nodup_requested
  have hblocked := Order.blocked_eq_nil_iff g.requestedDependencies hnodes
  rw [orderByCounting, Order.visitedByCounting_eq _ hnodes, Option.bind_eq_bind, Option.bind_some,
    order]
  split
  · next hlength => rw [hblocked.2 hlength]
  · next hlength =>
    split
    · next hnone => exact absurd (hblocked.1 hnone) hlength
    · rfl

end DefinitionGraph

end ColumnMetadata
