import Mathlib.Data.List.MinMax
import Mathlib.Order.Lattice.Nat
import ColumnMetadata.Proofs.Project.Cycles

/-!
# Who comes first

Nodes are visited in the order in which they become ready, and a node becomes ready with the visit
of the last node that it depends on (`Order.readyAt`). What was visited and what waits is at any
time in this order (`InTurn`): a visit makes nodes ready later than all that were ready before, and
those that it makes ready itself keep the order in which they were given. So the order of two visits
can be told from the last dependencies of the two nodes
(`DefinitionGraph.order_by_last_dependency`), and what is visited later is at the head of chains of
dependencies that are at least as long.
-/

namespace ColumnMetadata

namespace Order

variable {dependencies : Nat → List Nat} {nodes waiting visited ids : List Nat}

/-! ## Places in lists -/

/-- Where no two elements are related both ways, a list in which all are related in their order
tells the relation by their places. -/
theorem idxOf_lt_idxOf_iff {α : Type} [BEq α] [LawfulBEq α] {r : α → α → Prop} {xs : List α}
    (h : xs.Pairwise r) (hr : ∀ a b, r a b → ¬r b a) {a b : α} (ha : a ∈ xs) (hb : b ∈ xs) :
    xs.idxOf a < xs.idxOf b ↔ r a b := by
  have related : ∀ {a b}, a ∈ xs → b ∈ xs → xs.idxOf a < xs.idxOf b → r a b := by
    intro a b ha hb hlt
    have hab := List.pairwise_iff_getElem.1 h _ _ (List.idxOf_lt_length_of_mem ha)
      (List.idxOf_lt_length_of_mem hb) hlt
    rwa [List.getElem_idxOf, List.getElem_idxOf] at hab
  refine ⟨related ha hb, fun hab => ?_⟩
  rcases Nat.lt_trichotomy (xs.idxOf a) (xs.idxOf b) with hlt | heq | hgt
  · exact hlt
  · cases (List.idxOf_inj ha).1 heq
    exact absurd hab (hr a a hab)
  · exact absurd (related hb ha hgt) (hr a b hab)

/-- Without repetitions, elements stand in the order in which they are first met. -/
theorem pairwise_eraseDups {α : Type} [BEq α] [LawfulBEq α] (xs : List α) :
    xs.eraseDups.Pairwise fun a b => xs.idxOf a < xs.idxOf b := by
  induction xs using List.reverseRecOn with
  | nil => exact List.Pairwise.nil
  | append_singleton xs x ih =>
    have hold : ∀ a ∈ xs.eraseDups, (xs ++ [x]).idxOf a = xs.idxOf a := by
      intro a ha
      rw [List.idxOf_append, if_pos (List.mem_eraseDups.1 ha)]
    have hkept : xs.eraseDups.Pairwise fun a b => (xs ++ [x]).idxOf a < (xs ++ [x]).idxOf b := by
      refine ih.imp_of_mem fun ha hb hlt => ?_
      rwa [hold _ ha, hold _ hb]
    rw [← foldl_noted_nil, List.foldl_append, List.foldl_cons, List.foldl_nil, foldl_noted_nil,
      noted]
    split
    · exact hkept
    · next hx =>
      have hnew : x ∉ xs := fun hmem => hx (List.contains_iff_mem.2 (List.mem_eraseDups.2 hmem))
      refine List.pairwise_append.2 ⟨hkept, List.pairwise_singleton _ x, fun a ha b hb => ?_⟩
      rw [List.mem_singleton.1 hb, hold a ha, List.idxOf_append, if_neg hnew, List.idxOf_cons_self]
      exact Nat.lt_of_lt_of_le (List.idxOf_lt_length_of_mem (List.mem_eraseDups.1 ha))
        (Nat.le_add_left _ _)

/-! ## When a node is ready -/

/-- How many visits it takes until a node is ready: those up to the last node that it depends on. -/
def readyAt (dependencies : Nat → List Nat) (ids : List Nat) (n : Nat) : Nat :=
  ((dependencies n).map fun d => ids.idxOf d + 1).foldr max 0

theorem foldr_max_le_iff {xs : List Nat} {k : Nat} : xs.foldr max 0 ≤ k ↔ ∀ x ∈ xs, x ≤ k := by
  induction xs with
  | nil => simp
  | cons x xs ih => simp [ih]

theorem readyAt_le_iff {n k : Nat} :
    readyAt dependencies ids n ≤ k ↔ ∀ d ∈ dependencies n, ids.idxOf d < k := by
  rw [readyAt, foldr_max_le_iff, List.forall_mem_map]
  exact Iff.rfl

theorem readyAt_of_eq_nil {n : Nat} (h : dependencies n = []) :
    readyAt dependencies ids n = 0 := by
  rw [readyAt, h]
  rfl

/-- The last node that one depends on makes it ready. -/
theorem readyAt_of_last {n d : Nat} (hd : d ∈ dependencies n)
    (hlast : ∀ e ∈ dependencies n, ids.idxOf e ≤ ids.idxOf d) :
    readyAt dependencies ids n = ids.idxOf d + 1 :=
  Nat.le_antisymm (readyAt_le_iff.2 fun e he => Nat.lt_succ_of_le (hlast e he))
    (readyAt_le_iff.1 (Nat.le_refl _) d hd)

/-- Further visits do not matter to a node that is ready. -/
theorem readyAt_append {n : Nat} (h : ∀ d ∈ dependencies n, d ∈ visited) (more : List Nat) :
    readyAt dependencies (visited ++ more) n = readyAt dependencies visited n := by
  refine congrArg (List.foldr max 0) (List.map_congr_left fun d hd => ?_)
  rw [List.idxOf_append, if_pos (h d hd)]

/-- One node is ready sooner than another one, or equally soon and given in front of it. -/
def Sooner (dependencies : Nat → List Nat) (ids : List Nat) (m n : Nat) : Prop :=
  readyAt dependencies ids m < readyAt dependencies ids n ∨
    readyAt dependencies ids m = readyAt dependencies ids n ∧ m < n

theorem Sooner.asymm {m n : Nat} (h : Sooner dependencies ids m n) :
    ¬Sooner dependencies ids n m := by
  unfold Sooner at *
  omega

/-! ## The visits -/

/-- What was visited and what waits behind it stand in the order in which they became ready. -/
structure InTurn (dependencies : Nat → List Nat) (nodes waiting visited : List Nat) : Prop extends
    Visiting dependencies nodes waiting visited where
  sooner : (visited ++ waiting).Pairwise (Sooner dependencies visited)

theorem InTurn.start (h : nodes.Pairwise (· < ·)) :
    InTurn dependencies nodes (nodes.filter fun n => (dependencies n).isEmpty) [] where
  toVisiting := .start (h.imp Nat.ne_of_lt)
  sooner := by
    refine (h.filter _).imp_of_mem fun {m n} hm hn hlt => ?_
    have hm : readyAt dependencies [] m = 0 :=
      readyAt_of_eq_nil (List.isEmpty_iff.1 (List.mem_filter.1 hm).2)
    have hn : readyAt dependencies [] n = 0 :=
      readyAt_of_eq_nil (List.isEmpty_iff.1 (List.mem_filter.1 hn).2)
    exact .inr ⟨hm.trans hn.symm, hlt⟩

/-- What waits or was visited depends on visited nodes only. -/
theorem Visiting.mem_of_dependency (h : Visiting dependencies nodes waiting visited) {n d : Nat}
    (hn : n ∈ visited ++ waiting) (hd : d ∈ dependencies n) : d ∈ visited := by
  rcases List.mem_append.1 hn with hn | hn
  · exact h.ordered.mem hn hd
  · exact h.ready n hn d hd

theorem Visiting.readyAt_le (h : Visiting dependencies nodes waiting visited) {n : Nat}
    (hn : n ∈ visited ++ waiting) : readyAt dependencies visited n ≤ visited.length :=
  readyAt_le_iff.2 fun _ hd => List.idxOf_lt_length_of_mem (h.mem_of_dependency hn hd)

/-- What a visit makes ready is ready with this visit. -/
theorem readyAt_of_mem_madeReady {id n : Nat} (hid : id ∉ visited)
    (hn : n ∈ madeReady dependencies nodes (visited ++ [id]) id) :
    readyAt dependencies (visited ++ [id]) n = visited.length + 1 := by
  obtain ⟨-, hdependency, hvisited⟩ := mem_madeReady.1 hn
  have hidx : (visited ++ [id]).idxOf id = visited.length := by
    rw [List.idxOf_append, if_neg hid, List.idxOf_cons_self, Nat.zero_add]
  rw [← hidx]
  refine readyAt_of_last hdependency fun e he => ?_
  have hlt := List.idxOf_lt_length_of_mem (hvisited e he)
  rw [List.length_append, List.length_singleton] at hlt
  omega

theorem InTurn.step (hnodes : nodes.Pairwise (· < ·)) {id : Nat}
    (h : InTurn dependencies nodes (id :: waiting) visited) :
    InTurn dependencies nodes
      (waiting ++ madeReady dependencies nodes (visited ++ [id]) id) (visited ++ [id]) where
  toVisiting := h.toVisiting.step (hnodes.imp Nat.ne_of_lt)
  sooner := by
    have hid : id ∉ visited := fun hmem =>
      (List.nodup_append.1 h.nodup).2.2 id hmem id List.mem_cons_self rfl
    have hold : ∀ n ∈ visited ++ id :: waiting,
        readyAt dependencies (visited ++ [id]) n = readyAt dependencies visited n := fun n hn =>
      readyAt_append (fun d hd => h.mem_of_dependency hn hd) [id]
    have hsplit :
        visited ++ [id] ++ (waiting ++ madeReady dependencies nodes (visited ++ [id]) id) =
          (visited ++ id :: waiting) ++ madeReady dependencies nodes (visited ++ [id]) id := by
      simp
    rw [hsplit, List.pairwise_append]
    refine ⟨?_, ?_, ?_⟩
    · refine h.sooner.imp_of_mem fun {m n} hm hn hsooner => ?_
      unfold Sooner
      rwa [hold m hm, hold n hn]
    · -- All of them are ready with this visit, so they stay in the order in which they were given.
      refine (hnodes.filter _).imp_of_mem fun {m n} hm hn hlt => .inr ⟨?_, hlt⟩
      rw [readyAt_of_mem_madeReady hid hm, readyAt_of_mem_madeReady hid hn]
    · intro m hm n hn
      refine .inl ?_
      rw [hold m hm, readyAt_of_mem_madeReady hid hn]
      exact Nat.lt_succ_of_le (h.readyAt_le hm)

/-- The visits are in the order in which the nodes become ready. -/
theorem pairwise_visited (dependencies : Nat → List Nat) (h : nodes.Pairwise (· < ·)) :
    (Order.visited dependencies nodes).Pairwise
      (Sooner dependencies (Order.visited dependencies nodes)) := by
  have hend : InTurn dependencies nodes [] (Order.visited dependencies nodes) :=
    visit_induction InTurn.toVisiting (fun h' => h'.step h) nodes.length (InTurn.start h)
      (Nat.le_refl _)
  have hsooner := hend.sooner
  rwa [List.append_nil] at hsooner

end Order

namespace DefinitionGraph

variable {α : Type} {g : DefinitionGraph α} {ids : List Nat}

/-! ## Chains of dependencies -/

/-- From a node one can follow dependencies between requested nodes that many times. -/
def HasChain (g : DefinitionGraph α) (id count : Nat) : Prop :=
  ∃ below : List Nat, below.length = count ∧ (id :: below).IsChain g.DependsOn

/-- The length of the longest chain of dependencies from a node. -/
def HasDepth (g : DefinitionGraph α) (id depth : Nat) : Prop :=
  IsGreatest {count | g.HasChain id count} depth

theorem hasChain_zero (id : Nat) : g.HasChain id 0 := ⟨[], rfl, .singleton id⟩

theorem hasChain_succ {id count : Nat} :
    g.HasChain id (count + 1) ↔ ∃ d, g.DependsOn id d ∧ g.HasChain d count := by
  constructor
  · rintro ⟨below, hlength, hchain⟩
    obtain ⟨d, below, rfl⟩ := List.exists_cons_of_length_eq_add_one hlength
    obtain ⟨hd, hrest⟩ := List.isChain_cons_cons.1 hchain
    exact ⟨d, hd, below, Nat.succ.inj hlength, hrest⟩
  · rintro ⟨d, hd, below, rfl, hchain⟩
    exact ⟨d :: below, rfl, .cons_cons hd hchain⟩

/-! ## Last dependencies -/

/-- The last one in an order of the requested nodes that a node depends on. -/
def LastDependency (g : DefinitionGraph α) (ids : List Nat) (id d : Nat) : Prop :=
  g.DependsOn id d ∧ ∀ e, g.DependsOn id e → ids.idxOf e ≤ ids.idxOf d

theorem pairwise_requested : g.requested.Pairwise (· < ·) :=
  List.pairwise_lt_range.filter _

theorem mem_requestedDependencies_iff {id d : Nat} (hid : id ∈ g.requested) :
    d ∈ g.requestedDependencies id ↔ g.DependsOn id d := by
  rw [dependsOn_iff, and_iff_right hid]

theorem exists_lastDependency (ids : List Nat) {id d : Nat} (h : g.DependsOn id d) :
    ∃ last, g.LastDependency ids id last := by
  have hd : d ∈ g.requestedDependencies id := (mem_requestedDependencies_iff h.1).2 h
  have hsome : List.argmax ids.idxOf (g.requestedDependencies id) ≠ none := by
    rw [Ne, List.argmax_eq_none]
    exact List.ne_nil_of_mem hd
  obtain ⟨last, hlast⟩ := Option.ne_none_iff_exists'.1 hsome
  refine ⟨last, (mem_requestedDependencies_iff h.1).1 (List.argmax_mem hlast), fun e he => ?_⟩
  exact List.le_of_mem_argmax ((mem_requestedDependencies_iff h.1).2 he) hlast

theorem readyAt_of_lastDependency {id d : Nat} (h : g.LastDependency ids id d) :
    Order.readyAt g.requestedDependencies ids id = ids.idxOf d + 1 := by
  obtain ⟨hd, hlast⟩ := h
  refine Order.readyAt_of_last ((mem_requestedDependencies_iff hd.1).2 hd) fun e he => ?_
  exact hlast e ((mem_requestedDependencies_iff hd.1).1 he)

theorem readyAt_of_forall_not {id : Nat} (hid : id ∈ g.requested) (h : ∀ d, ¬g.DependsOn id d) :
    Order.readyAt g.requestedDependencies ids id = 0 := by
  refine Order.readyAt_of_eq_nil (List.eq_nil_iff_forall_not_mem.2 fun d hd => ?_)
  exact h d ((mem_requestedDependencies_iff hid).1 hd)

/-! ## The order of a graph -/

section Order

variable (h : g.order = .ok ids) {u v : Nat} (hu : u ∈ g.requested) (hv : v ∈ g.requested)

include h in
theorem order_eq_visited : ids = Order.visited g.requestedDependencies g.requested := by
  unfold order at h
  split at h
  · cases h
    rfl
  · cases h

include h hu hv in
/-- One node stands in front of another one when it is ready sooner. -/
theorem idxOf_lt_iff_sooner :
    ids.idxOf u < ids.idxOf v ↔ Order.Sooner g.requestedDependencies ids u v := by
  have hmem := (ordering_of_order h).mem
  have hpairwise := Order.pairwise_visited g.requestedDependencies g.pairwise_requested
  rw [← order_eq_visited h] at hpairwise
  exact Order.idxOf_lt_idxOf_iff hpairwise (fun _ _ => Order.Sooner.asymm) ((hmem u).2 hu)
    ((hmem v).2 hv)

include h hu hv in
theorem readyAt_le_of_idxOf_le (hle : ids.idxOf u ≤ ids.idxOf v) :
    Order.readyAt g.requestedDependencies ids u ≤ Order.readyAt g.requestedDependencies ids v := by
  refine Nat.le_of_not_lt fun hlt => ?_
  have hsooner := (idxOf_lt_iff_sooner h hv hu).2 (.inl hlt)
  omega

include h in
theorem idxOf_lt_of_dependsOn {d : Nat} (hd : g.DependsOn u d) : ids.idxOf d < ids.idxOf u := by
  have hordering := ordering_of_order h
  exact hordering.ordered.idxOf_lt ((hordering.mem u).2 hd.1)
    ((mem_requestedDependencies_iff hd.1).2 hd)

include h in
/-- A chain has only as many steps as there are nodes in front of its first one. -/
theorem HasChain.le_idxOf {count : Nat} (hchain : g.HasChain u count) : count ≤ ids.idxOf u := by
  induction count generalizing u with
  | zero => exact Nat.zero_le _
  | succ count ih =>
    obtain ⟨d, hd, hchain⟩ := hasChain_succ.1 hchain
    exact Nat.lt_of_le_of_lt (ih hchain) (idxOf_lt_of_dependsOn h hd)

include h in
theorem exists_hasDepth (id : Nat) : ∃ depth, g.HasDepth id depth := by
  have hbounded : BddAbove {count | g.HasChain id count} :=
    ⟨ids.idxOf id, fun _ hchain => HasChain.le_idxOf h hchain⟩
  exact ⟨_, Nat.sSup_mem ⟨0, hasChain_zero id⟩ hbounded, fun _ hchain => le_csSup hbounded hchain⟩

include h hu hv in
/-- What stands later is at the head of chains that are at least as long: whatever the earlier node
depends on, the last dependency of the later one stands there or further behind. -/
theorem HasChain.of_idxOf_le {count : Nat} (hchain : g.HasChain u count)
    (hle : ids.idxOf u ≤ ids.idxOf v) : g.HasChain v count := by
  induction count generalizing u v with
  | zero => exact hasChain_zero v
  | succ count ih =>
    obtain ⟨e, he, hchain⟩ := hasChain_succ.1 hchain
    have hready := readyAt_le_of_idxOf_le h hu hv hle
    have hlt : ids.idxOf e < Order.readyAt g.requestedDependencies ids v :=
      Nat.lt_of_lt_of_le
        (Order.readyAt_le_iff.1 (Nat.le_refl _) e ((mem_requestedDependencies_iff hu).2 he)) hready
    by_cases hsome : ∃ d, g.DependsOn v d
    · obtain ⟨d, hd⟩ := hsome
      obtain ⟨last, hlast⟩ := exists_lastDependency ids hd
      rw [readyAt_of_lastDependency hlast] at hlt
      exact hasChain_succ.2
        ⟨last, hlast.1, ih he.2.1 hlast.1.2.1 hchain (Nat.le_of_lt_succ hlt)⟩
    · rw [readyAt_of_forall_not hv (not_exists.1 hsome)] at hlt
      exact absurd hlt (Nat.not_lt_zero _)

end Order

/-! ## The order in which files are asked for -/

/-- The file of one node is asked for before that of another one. -/
def AskedBefore (g : DefinitionGraph α) (files : List String) (u v : Nat) : Prop :=
  files.idxOf (g.file u) < files.idxOf (g.file v)

/-- The requested nodes have their numbers in the order in which their files are asked for. -/
theorem askedBefore_iff {ε : Type} (p : CompiledProject) (files : List String)
    (loader : Nat → ActionDescriptor → Except ε α) {u v : Nat} :
    let g := (GraphBuild.run p files loader).graph
    u ∈ g.requested → v ∈ g.requested → (g.AskedBefore files u v ↔ u < v) := by
  intro g hu hv
  obtain ⟨_, hsound⟩ := GraphBuild.sound_run p files loader
  have hfiles := (Order.pairwise_eraseDups files).sublist hsound.files
  rw [← GraphBuild.map_file_requested, List.pairwise_map] at hfiles
  have hplaces := Order.idxOf_lt_idxOf_iff hfiles (fun _ _ => Nat.lt_asymm) hu hv
  exact hplaces.symm.trans
    (Order.idxOf_lt_idxOf_iff pairwise_requested (fun _ _ => Nat.lt_asymm) hu hv)

/-- In the order of a graph, first come the requested nodes that depend on no requested node, as
their files were asked for. The others have a last dependency, and of two of them that one comes
first whose last dependency does; with the same last dependency, that one whose file was asked for
first. So the longest chains of dependencies from the nodes never get shorter along the order. -/
theorem order_by_last_dependency {ε : Type} (p : CompiledProject) (files : List String)
    (loader : Nat → ActionDescriptor → Except ε α) {ids : List Nat}
    (h : (GraphBuild.run p files loader).graph.order = .ok ids) :
    let g := (GraphBuild.run p files loader).graph
    ids.Perm g.requested ∧
    (∀ u ∈ g.requested, ∀ v ∈ g.requested, (∀ d, ¬g.DependsOn u d) →
      (ids.idxOf u < ids.idxOf v ↔ (∃ d, g.DependsOn v d) ∨ g.AskedBefore files u v)) ∧
    (∀ u, (∃ d, g.DependsOn u d) → ∃! d, g.LastDependency ids u d) ∧
    (∀ u v d e, g.LastDependency ids u d → g.LastDependency ids v e →
      (ids.idxOf u < ids.idxOf v ↔
        ids.idxOf d < ids.idxOf e ∨ d = e ∧ g.AskedBefore files u v)) ∧
    (∀ u, ∃ depth, g.HasDepth u depth) ∧
    (∀ u ∈ g.requested, ∀ v ∈ g.requested, ids.idxOf u < ids.idxOf v →
      ∀ m n, g.HasDepth u m → g.HasDepth v n → m ≤ n) := by
  intro g
  have hordering := ordering_of_order h
  have eq_of_idxOf : ∀ {d e}, d ∈ g.requested → ids.idxOf d = ids.idxOf e → d = e :=
    fun hd he => (List.idxOf_inj ((hordering.mem _).2 hd)).1 he
  refine ⟨hordering.perm, ?_, ?_, ?_, exists_hasDepth h, ?_⟩
  · intro u hu v hv hnone
    rw [idxOf_lt_iff_sooner h hu hv, Order.Sooner, readyAt_of_forall_not hu hnone,
      askedBefore_iff p files loader hu hv]
    by_cases hsome : ∃ d, g.DependsOn v d
    · obtain ⟨last, hlast⟩ := exists_lastDependency ids hsome.choose_spec
      rw [readyAt_of_lastDependency hlast]
      exact iff_of_true (.inl (Nat.succ_pos _)) (.inl hsome)
    · rw [readyAt_of_forall_not hv (not_exists.1 hsome)]
      simp [hsome]
  · rintro u ⟨d, hd⟩
    obtain ⟨last, hlast⟩ := exists_lastDependency ids hd
    refine ⟨last, hlast, fun other hother => eq_of_idxOf hother.1.2.1 ?_⟩
    exact Nat.le_antisymm (hlast.2 other hother.1) (hother.2 last hlast.1)
  · intro u v d e hd he
    rw [idxOf_lt_iff_sooner h hd.1.1 he.1.1, Order.Sooner, readyAt_of_lastDependency hd,
      readyAt_of_lastDependency he, askedBefore_iff p files loader hd.1.1 he.1.1]
    refine or_congr Nat.add_lt_add_iff_right (and_congr_left' ?_)
    exact ⟨fun heq => eq_of_idxOf hd.1.2.1 (Nat.succ.inj heq), fun heq => by rw [heq]⟩
  · intro u hu v hv hlt m n hm hn
    exact hn.2 (HasChain.of_idxOf_le h hu hv hm.1 (Nat.le_of_lt hlt))

/-- A project in which `d` reads `c` and `b`, and both of them read `a`. -/
def sampleDiamond : CompiledProject :=
  let table (name : String) (reads : List String) : ActionDescriptor :=
    ⟨name, ⟨"s", name, none⟩, none, reads.map fun t => ⟨"s", t, none⟩, none, false⟩
  ⟨[table "a" [], table "b" ["a"], table "c" ["a"], table "d" ["c", "b"], table "e" []],
    [], [], [], [], [], none⟩

/-- The files are asked for against their dependencies. -/
def sampleGraph : DefinitionGraph Unit :=
  (GraphBuild.run sampleDiamond ["d", "c", "b", "a", "e"]
    fun _ _ => (.ok () : Except Unit Unit)).graph

theorem order_by_last_dependency_sample :
    sampleGraph.order = .ok [3, 4, 1, 2, 0] ∧
    (∃! d, sampleGraph.LastDependency [3, 4, 1, 2, 0] 0 d) ∧
    ∀ m n, sampleGraph.HasDepth 2 m → sampleGraph.HasDepth 0 n → m ≤ n := by
  have horder : sampleGraph.order = .ok [3, 4, 1, 2, 0] := by decide +kernel
  obtain ⟨-, -, hlast, -, -, hdepth⟩ := order_by_last_dependency sampleDiamond
    ["d", "c", "b", "a", "e"] (fun _ _ => (.ok () : Except Unit Unit)) horder
  have hreads : sampleGraph.DependsOn 0 2 :=
    (mem_requestedDependencies_iff (by decide +kernel)).1 (by decide +kernel)
  refine ⟨horder, hlast 0 ⟨2, hreads⟩, ?_⟩
  exact hdepth 2 (by decide +kernel) 0 (by decide +kernel) (by decide)

end DefinitionGraph

end ColumnMetadata
