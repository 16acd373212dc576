import Mathlib.Data.Fintype.Card
import Mathlib.Data.Set.Finite.List
import Mathlib.Logic.Relation
import ColumnMetadata.Proofs.Project.Graph

/-!
# Cycles of dependencies

The blocked nodes are those from which a cycle can be reached (`Order.mem_blocked_iff`). One
direction goes along the order of the visits: what is visited depends on what was visited before.
The other one goes along the dependencies, which cannot descend for ever in a finite graph without a
cycle. So a graph has an order exactly when the dependencies between its requested nodes are
acyclic, and else the files that stand in the way are named (`DefinitionGraph.order_of_run`).
-/

namespace ColumnMetadata

open Relation

namespace Order

variable {dependencies : Nat → List Nat} {nodes : List Nat} {r : Nat → Nat → Prop}

/-- From `n` one comes to a node that is on a cycle. -/
def ReachesCycle (r : Nat → Nat → Prop) (n : Nat) : Prop :=
  ∃ c, ReflTransGen r n c ∧ TransGen r c c

theorem ReachesCycle.exists_step {n : Nat} (h : ReachesCycle r n) :
    ∃ d, r n d ∧ ReachesCycle r d := by
  obtain ⟨c, hreach, hcycle⟩ := h
  rcases hreach.cases_head with rfl | ⟨d, hd, hrest⟩
  · -- On the cycle itself, the next node is on it too.
    obtain ⟨d, hd, hrest⟩ := TransGen.head'_iff.1 hcycle
    exact ⟨d, hd, n, hrest, hcycle⟩
  · exact ⟨d, hd, c, hrest, hcycle⟩

theorem ReachesCycle.of_step {n d : Nat} (hd : r n d) (h : ReachesCycle r d) :
    ReachesCycle r n := by
  obtain ⟨c, hreach, hcycle⟩ := h
  exact ⟨c, hreach.head hd, hcycle⟩

/-- In an ordered list, what passes from the dependencies of a node to the node holds of all. -/
theorem Ordered.induction {P : Nat → Prop} {ids : List Nat} (h : Ordered dependencies ids)
    (step : ∀ n ∈ ids, (∀ d ∈ dependencies n, P d) → P n) : ∀ n ∈ ids, P n := by
  induction ids using List.reverseRecOn with
  | nil => exact nofun
  | append_singleton ids last ih =>
    have hids : Ordered dependencies ids := by
      intro before id after he
      exact h before id (after ++ [last]) (by rw [he]; simp)
    have hbefore := ih hids fun n hn => step n (List.mem_append_left _ hn)
    refine List.forall_mem_append.2 ⟨hbefore, List.forall_mem_singleton.2 ?_⟩
    refine step last (List.mem_append_right _ (List.mem_singleton_self last)) fun d hd => ?_
    exact hbefore d (h ids last [] rfl d hd)

section Blocked

variable (hnodes : nodes.Nodup) (hr : ∀ n d, r n d ↔ n ∈ nodes ∧ d ∈ dependencies n)
  (hclosed : ∀ n ∈ nodes, ∀ d ∈ dependencies n, d ∈ nodes)

include hr hnodes in
theorem not_reachesCycle_of_mem_visited :
    ∀ n ∈ visited dependencies nodes, ¬ReachesCycle r n := by
  refine (ordered_visited hnodes).induction fun n _ hdependencies hcycle => ?_
  obtain ⟨d, hd, hcycle⟩ := hcycle.exists_step
  exact hdependencies d ((hr n d).1 hd).2 hcycle

/-- Among finitely many nodes, those without a cycle ahead of them come to an end. -/
theorem wellFounded_of_not_reachesCycle (r : Nat → Nat → Prop) (nodes : List Nat) :
    WellFounded fun d n : {n // n ∈ nodes} => TransGen r n d ∧ ¬ReachesCycle r n := by
  have : Finite {n // n ∈ nodes} := List.finite_toSet nodes
  have : IsTrans {n // n ∈ nodes} fun d n => TransGen r n d ∧ ¬ReachesCycle r n :=
    ⟨fun _ _ _ hba hcb => ⟨hcb.1.trans hba.1, hcb.2⟩⟩
  have : Std.Irrefl fun d n : {n // n ∈ nodes} => TransGen r n d ∧ ¬ReachesCycle r n :=
    ⟨fun n h => h.2 ⟨n, .refl, h.1⟩⟩
  exact Finite.wellFounded_of_trans_of_irrefl _

include hr hnodes hclosed in
theorem mem_visited_of_not_reachesCycle {n : Nat} (hn : n ∈ nodes) (hcycle : ¬ReachesCycle r n) :
    n ∈ visited dependencies nodes := by
  suffices h : ∀ n : {n // n ∈ nodes}, ¬ReachesCycle r n → n.1 ∈ visited dependencies nodes from
    h ⟨n, hn⟩ hcycle
  intro n
  induction n using (wellFounded_of_not_reachesCycle r nodes).induction with
  | _ n ih =>
    intro hcycle
    refine (mem_visited_iff hnodes n.2).2 fun d hd => ?_
    have hstep : r n d := (hr n d).2 ⟨n.2, hd⟩
    exact ih ⟨d, hclosed n n.2 d hd⟩ ⟨.single hstep, hcycle⟩ fun h => hcycle (.of_step hstep h)

include hr hnodes hclosed in
/-- The blocked nodes are those on a cycle and those that depend on one. -/
theorem mem_blocked_iff {n : Nat} :
    n ∈ blocked dependencies nodes ↔ n ∈ nodes ∧ ReachesCycle r n := by
  rw [blocked, List.mem_filter]
  refine and_congr_right fun hn => ?_
  have hvisited : n ∈ visited dependencies nodes ↔ ¬ReachesCycle r n :=
    ⟨not_reachesCycle_of_mem_visited hnodes hr n,
      mem_visited_of_not_reachesCycle hnodes hr hclosed hn⟩
  simp [hvisited]

end Blocked

end Order

namespace DefinitionGraph

variable {α : Type} {g : DefinitionGraph α}

/-- A requested node reads the table of another one, or its own. -/
def DependsOn (g : DefinitionGraph α) (id d : Nat) : Prop :=
  id ∈ g.requested ∧ d ∈ g.requested ∧ d ∈ g.dependencies id

/-- No requested node comes back to itself along dependencies. -/
def Acyclic (g : DefinitionGraph α) : Prop := ∀ id, ¬TransGen g.DependsOn id id

theorem mem_requestedDependencies {id d : Nat} :
    d ∈ g.requestedDependencies id ↔ d ∈ g.requested ∧ d ∈ g.dependencies id := by
  rw [requestedDependencies, List.mem_filter, mem_requested, Option.any_eq_true, and_comm]

theorem dependsOn_iff (id d : Nat) :
    g.DependsOn id d ↔ id ∈ g.requested ∧ d ∈ g.requestedDependencies id := by
  rw [DependsOn, mem_requestedDependencies]

theorem dependsOn_iff_exists {id d : Nat} :
    g.DependsOn id d ↔ ∃ n m, g.node? id = some n ∧ n.requested = true ∧
      g.node? d = some m ∧ m.requested = true ∧ d ∈ n.dependencies := by
  constructor
  · rintro ⟨hid, hd, hmem⟩
    obtain ⟨n, hn, hnr⟩ := mem_requested.1 hid
    obtain ⟨m, hm, hmr⟩ := mem_requested.1 hd
    rw [dependencies, hn] at hmem
    exact ⟨n, m, hn, hnr, hm, hmr, hmem⟩
  · rintro ⟨n, m, hn, hnr, hm, hmr, hmem⟩
    refine ⟨mem_requested.2 ⟨n, hn, hnr⟩, mem_requested.2 ⟨m, hm, hmr⟩, ?_⟩
    rw [dependencies, hn]
    exact hmem

theorem mem_blocked_iff {id : Nat} :
    id ∈ Order.blocked g.requestedDependencies g.requested ↔
      id ∈ g.requested ∧ Order.ReachesCycle g.DependsOn id :=
  Order.mem_blocked_iff nodup_requested dependsOn_iff fun _ _ _ hd =>
    (mem_requestedDependencies.1 hd).1

theorem acyclic_iff_blocked_eq_nil :
    g.Acyclic ↔ Order.blocked g.requestedDependencies g.requested = [] := by
  rw [List.eq_nil_iff_forall_not_mem]
  constructor
  · intro h id hid
    obtain ⟨_, c, _, hcycle⟩ := mem_blocked_iff.1 hid
    exact h c hcycle
  · intro h id hcycle
    -- A node on a cycle has a dependency, so it was requested.
    obtain ⟨_, ⟨hid, _⟩, _⟩ := TransGen.head'_iff.1 hcycle
    exact h id (mem_blocked_iff.2 ⟨hid, id, .refl, hcycle⟩)

/-- The files that stand in the way of an order. -/
theorem order_eq_error {files : List String} (h : g.order = .error files) :
    files = (Order.blocked g.requestedDependencies g.requested).map g.file := by
  unfold order at h
  split at h
  · cases h
  · cases h
    rfl

theorem exists_order_iff : (∃ ids, g.order = .ok ids) ↔ g.Acyclic := by
  rw [acyclic_iff_blocked_eq_nil, order]
  cases Order.blocked g.requestedDependencies g.requested <;> simp

theorem Ordering.perm {ids : List Nat} (h : g.Ordering ids) : ids.Perm g.requested :=
  (List.perm_ext_iff_of_nodup h.nodup nodup_requested).2 h.mem

end DefinitionGraph

/-- A graph of definition files has an order exactly when the dependencies between its requested
nodes are acyclic. The order has every requested node once, behind the requested nodes that it
depends on. Without an order, the files of just those requested nodes are named from which a cycle
can be reached, in the order in which the files were asked for. -/
theorem DefinitionGraph.order_of_run {α ε : Type} (p : CompiledProject) (files : List String)
    (loader : Nat → ActionDescriptor → Except ε α) :
    let g := (GraphBuild.run p files loader).graph
    ((∃ ids, g.order = .ok ids) ↔ g.Acyclic) ∧
    (∀ ids, g.order = .ok ids → ids.Perm g.requested ∧
      ∀ before id after, ids = before ++ id :: after →
        ∀ d ∈ g.dependencies id, d ∈ g.requested → d ∈ before) ∧
    (∀ named, g.order = .error named →
      ∃ ids : List Nat, named = ids.map g.file ∧ ids.Sublist g.requested ∧ named.Sublist files.eraseDups ∧
        ∀ id, id ∈ ids ↔ id ∈ g.requested ∧
          ∃ c, ReflTransGen g.DependsOn id c ∧ TransGen g.DependsOn c c) := by
  intro g
  refine ⟨exists_order_iff, fun ids hids => ?_, fun named hnamed => ?_⟩
  · have h := ordering_of_order hids
    exact ⟨h.perm, fun _ _ _ he _ hd hrequested => h.mem_before he hd hrequested⟩
  · obtain ⟨count, hsound⟩ := GraphBuild.sound_run p files loader
    have hblocked : (Order.blocked g.requestedDependencies g.requested).Sublist g.requested :=
      List.filter_sublist
    refine ⟨_, order_eq_error hnamed, hblocked, ?_, fun id => mem_blocked_iff⟩
    have hfiles := hblocked.map g.file
    rw [← order_eq_error hnamed, GraphBuild.map_file_requested] at hfiles
    exact hfiles.trans hsound.files

end ColumnMetadata
