import ColumnMetadata.Proofs.Project.Resolution

/-!
# What the nodes of a graph read

When the keys of targets are distinct and loading an action always gives the same, a key leads to
the one node of its action (`GraphBuild.action?_of_nodeFor?`). So the dependencies of a requested
node are the nodes of the actions that its own action reads, whatever else was asked for
(`GraphBuild.map_action?_dependencies`), and every file that was asked for and can be loaded has a
requested node (`GraphBuild.requests_run`).
-/

namespace ColumnMetadata

namespace CompiledProject

variable {α β ε : Type}

/-- The action that makes a table, added to others if it can be loaded and is not among them. -/
def gather (p : CompiledProject) (load : ActionDescriptor → Except ε α)
    (found : List ActionDescriptor) (t : Target) : List ActionDescriptor :=
  match (TargetIndex.ofProject p).resolve? t with
  | none => found
  | some d => if (load d).isOk && !found.contains d then found ++ [d] else found

/-- The actions that an action reads: those of its targets that can be loaded, each once. -/
def reads (p : CompiledProject) (load : ActionDescriptor → Except ε α) (d : ActionDescriptor) :
    List ActionDescriptor :=
  d.dependencyTargets.foldl (p.gather load) []

theorem reads_eq (p : CompiledProject) (load : ActionDescriptor → Except ε α)
    (d : ActionDescriptor) : p.reads load d = (d.dependencyTargets.filterMap fun t =>
      ((TargetIndex.ofProject p).resolve? t).filter fun e => (load e).isOk).eraseDups := by
  rw [← foldl_noted_nil, List.foldl_filterMap, reads]
  refine List.foldl_ext _ _ _ fun found t _ => ?_
  unfold gather
  cases (TargetIndex.ofProject p).resolve? t with
  | none => rfl
  | some e =>
    dsimp only
    cases hload : (load e).isOk <;> simp [Option.filter_some, hload, noted]

/-- An action has a target that belongs to another one. -/
def Reads (p : CompiledProject) (d e : ActionDescriptor) : Prop :=
  ∃ t ∈ d.dependencyTargets, (TargetIndex.ofProject p).resolve? t = some e

theorem Reads.mem_actions {p : CompiledProject} {d e : ActionDescriptor} (h : p.Reads d e) :
    e ∈ p.actions := by
  obtain ⟨t, -, ht⟩ := h
  exact List.mem_append_left _ (List.mem_append_left _ (TargetIndex.mem_of_resolve? ht))

theorem reads_of_mem {p : CompiledProject} {load : ActionDescriptor → Except ε α}
    {d e : ActionDescriptor} (h : e ∈ p.reads load d) : p.Reads d e := by
  have hfold : ∀ (ts : List Target) (found : List ActionDescriptor),
      e ∈ ts.foldl (p.gather load) found →
        e ∈ found ∨ ∃ t ∈ ts, (TargetIndex.ofProject p).resolve? t = some e := by
    intro ts
    induction ts with
    | nil => exact fun _ he => .inl he
    | cons t ts ih =>
      intro found he
      rcases ih _ he with he | ⟨t', ht', ht⟩
      · unfold gather at he
        split at he
        · exact .inl he
        · next d' hd' =>
          split at he
          · rcases List.mem_append.1 he with he | he
            · exact .inl he
            · exact .inr ⟨t, List.mem_cons_self, List.mem_singleton.1 he ▸ hd'⟩
          · exact .inl he
      · exact .inr ⟨t', List.mem_cons_of_mem t ht', ht⟩
  exact (hfold _ _ h).resolve_left List.not_mem_nil

/-- What is read depends only on which of the actions that make its tables can be loaded. -/
theorem reads_congr {p : CompiledProject} {load : ActionDescriptor → Except ε α}
    {load' : ActionDescriptor → Except ε β} {d : ActionDescriptor}
    (h : ∀ e, p.Reads d e → (load e).isOk = (load' e).isOk) : p.reads load d = p.reads load' d := by
  unfold reads
  refine List.foldl_ext _ _ _ fun found t ht => ?_
  unfold gather
  split
  · rfl
  · next e he => rw [h e ⟨t, ht, he⟩]

/-- When fewer actions can be loaded, fewer of them are read, in the same order. -/
theorem reads_filter {p : CompiledProject} {load : ActionDescriptor → Except ε α}
    {load' : ActionDescriptor → Except ε β}
    (h : ∀ e, (load' e).isOk = true → (load e).isOk = true) (d : ActionDescriptor) :
    p.reads load' d = (p.reads load d).filter fun e => (load' e).isOk := by
  have hstep : ∀ found t, p.gather load' (found.filter fun e => (load' e).isOk) t =
      (p.gather load found t).filter fun e => (load' e).isOk := by
    intro found t
    unfold gather
    cases (TargetIndex.ofProject p).resolve? t with
    | none => rfl
    | some e =>
      dsimp only
      cases hload : (load' e).isOk with
      | false =>
        rw [Bool.false_and, if_neg nofun]
        split
        · rw [List.filter_append, List.filter_singleton, hload]
          exact (List.append_nil _).symm
        · rfl
      | true =>
        have hcontains : (found.filter fun e => (load' e).isOk).contains e = found.contains e := by
          rw [Bool.eq_iff_iff, List.contains_iff_mem, List.contains_iff_mem, List.mem_filter,
            and_iff_left hload]
        rw [h e hload, hcontains]
        split
        · rw [List.filter_append, List.filter_singleton, hload]
          rfl
        · rfl
  rw [reads, reads, ← List.foldl_hom (List.filter fun e => (load' e).isOk) hstep]
  rfl

end CompiledProject

namespace GraphBuild

variable {α ε : Type} {p : CompiledProject} {load : ActionDescriptor → Except ε α}
  {loader : Nat → ActionDescriptor → Except ε α} {b : GraphBuild α ε} {files : List String}

/-- The action of a node. -/
def action? (b : GraphBuild α ε) (id : Nat) : Option ActionDescriptor :=
  (b.nodes[id]?).map GraphNode.action

/-- Two nodes with one action are the same. -/
theorem eq_of_action? {i j : Nat} {d : ActionDescriptor}
    (hi : (run p files loader).action? i = some d) (hj : (run p files loader).action? j = some d) :
    i = j := by
  obtain ⟨m, hm, rfl⟩ := Option.map_eq_some_iff.1 hi
  obtain ⟨n, hn, he⟩ := Option.map_eq_some_iff.1 hj
  exact eq_of_action hm hn he.symm

theorem mem_actions_of_mem_loads {d : ActionDescriptor} (hd : d ∈ (run p files loader).loads) :
    d ∈ p.actions := by
  obtain ⟨outside, htraced⟩ := tracedFrom_run p files loader
  rw [htraced.loads] at hd
  rcases List.mem_append.1 hd with hd | hd
  · obtain ⟨file, -, hfile⟩ := List.mem_filterMap.1 hd
    exact List.mem_of_find?_eq_some hfile
  · obtain ⟨t, ht⟩ := htraced.known d hd
    exact List.mem_append_left _ (List.mem_append_left _ (TargetIndex.mem_of_resolve? ht))

/-! ## Keys lead to nodes -/

section Run

variable (hkeys : ∀ d ∈ p.actions, ∀ e ∈ p.actions, d.target.key = e.target.key → d = e)
  (files : List String)

include hkeys in
/-- The node for the key of an action is that of the action, which can be loaded. -/
theorem action?_of_nodeFor? {d : ActionDescriptor} (hd : d ∈ p.actions) {id : Nat}
    (hid : (run p files fun _ => load).graph.nodeFor? d.target.key = some id) :
    (run p files fun _ => load).action? id = some d ∧ (load d).isOk = true := by
  obtain ⟨n, hn, hkey⟩ := DefinitionGraph.exists_of_nodeFor? hid
  have hmem := List.mem_of_getElem? hn
  obtain rfl := hkeys _ ((drawn_run p files fun _ => load).mem_actions hmem) d hd hkey
  obtain ⟨_, hcontent⟩ := (sound_run_start p files fun _ => load).content n hmem
  refine ⟨congrArg (Option.map GraphNode.action) hn, ?_⟩
  rw [hcontent]
  rfl

variable {id : Nat} {n : GraphNode α} (hn : (run p files fun _ => load).nodes[id]? = some n)
  (hrequested : n.requested = true)

include hkeys hn hrequested in
/-- A target leads to the node of the action that makes the table if that can be loaded. -/
theorem map_edge? {t : Target} (ht : t ∈ n.action.dependencyTargets) :
    ((run p files fun _ => load).graph.edge? p t).map (run p files fun _ => load).action? =
      (((TargetIndex.ofProject p).resolve? t).filter fun d => (load d).isOk).map some := by
  rw [DefinitionGraph.edge?, TargetIndex.resolve?_ofProject]
  cases hd : p.makerOf? t with
  | none => rfl
  | some d =>
    have hmem : d ∈ p.actions := by
      rw [← TargetIndex.resolve?_ofProject] at hd
      exact List.mem_append_left _ (List.mem_append_left _ (TargetIndex.mem_of_resolve? hd))
    rw [Option.bind_some]
    cases hid : (run p files fun _ => load).graph.nodeFor? d.target.key with
    | some k =>
      obtain ⟨haction, hok⟩ := action?_of_nodeFor? hkeys files hmem hid
      rw [Option.map_some, haction, Option.filter_some, if_pos hok, Option.map_some]
    | none =>
      obtain ⟨i, d', e, hd', hkey, he⟩ := exists_failed hn hrequested ht hd hid
      obtain rfl := hkeys d' (mem_actions_of_mem_loads (List.mem_of_getElem? hd')) d hmem hkey
      simp [Option.filter_some, he, Except.isOk, Except.toBool]

include hkeys hn hrequested in
/-- The dependencies of a requested node are the nodes of what its action reads. -/
theorem map_action?_dependencies :
    n.dependencies.map (run p files fun _ => load).action? =
      (p.reads load n.action).map some := by
  have hedges : (n.action.dependencyTargets.filterMap
      ((run p files fun _ => load).graph.edge? p)).map (run p files fun _ => load).action? =
      (n.action.dependencyTargets.filterMap fun t =>
        ((TargetIndex.ofProject p).resolve? t).filter fun d => (load d).isOk).map some := by
    rw [List.map_filterMap, List.map_filterMap]
    exact List.filterMap_congr fun t ht => map_edge? hkeys files hn hrequested ht
  rw [dependencies_eq hn hrequested, CompiledProject.reads_eq, map_eraseDups, hedges,
    ← map_eraseDups _ fun _ _ _ _ => Option.some.inj]
  intro i hi j hj he
  have hsome : (run p files fun _ => load).action? i ∈ List.map some _ :=
    hedges ▸ List.mem_map_of_mem hi
  obtain ⟨d, -, hd⟩ := List.mem_map.1 hsome
  exact eq_of_action? hd.symm (he ▸ hd.symm)

include hkeys hn hrequested in
theorem mem_reads_iff {d : ActionDescriptor} : d ∈ p.reads load n.action ↔
    ∃ e ∈ n.dependencies, (run p files fun _ => load).action? e = some d := by
  rw [← List.mem_map, map_action?_dependencies hkeys files hn hrequested]
  simp

end Run

/-! ## Files that can be loaded -/

section Requests

variable {loader : Nat → ActionDescriptor → Except ε α} {d : ActionDescriptor}

/-- There is a requested node with the action. -/
def Requests (b : GraphBuild α ε) (d : ActionDescriptor) : Prop :=
  ∃ n ∈ b.nodes, n.requested = true ∧ n.action = d

theorem Requests.of_load (h : b.Requests d) (requested : Bool) (e : ActionDescriptor) :
    (b.load loader requested e).Requests d := by
  obtain ⟨n, hn, hd⟩ := h
  exact ⟨n, (b.prefix_load requested e).subset hn, hd⟩

theorem Requests.request (h : b.Requests d) (file : String) :
    (b.request p loader file).Requests d := by
  unfold GraphBuild.request
  split
  · exact h
  · exact h.of_load true _

theorem Requests.requests (h : b.Requests d) (files : List String) :
    (files.foldl (GraphBuild.request p loader) b).Requests d := by
  induction files generalizing b with
  | nil => exact h
  | cons file files ih => exact ih (h.request file)

theorem Requests.setDependencies (h : b.Requests d) (id : Nat) (found : List Nat) :
    Requests { b with nodes := b.nodes.modify id fun n => { n with dependencies := found } } d := by
  obtain ⟨n, hn, hrequested, hd⟩ := h
  obtain ⟨j, hj⟩ := List.getElem?_of_mem hn
  have hnode : (b.nodes.modify id fun n => { n with dependencies := found })[j]? =
      some (if id = j then { n with dependencies := found } else n) := by
    rw [List.getElem?_modify, hj, Option.map_eq_map, Option.map_some]
  refine ⟨_, List.mem_of_getElem? hnode, ?_⟩
  split
  · exact ⟨hrequested, hd⟩
  · exact ⟨hrequested, hd⟩

theorem Requests.links (h : b.Requests d) (index : TargetIndex) (ids : List Nat) :
    (ids.foldl (GraphBuild.link index loader) b).Requests d := by
  induction ids generalizing b with
  | nil => exact h
  | cons id ids ih =>
    refine ih ?_
    unfold GraphBuild.link
    split
    · exact h
    · exact (follow_induction (P := fun b => b.Requests d) _ (fun _ _ hb => hb)
        (fun _ e hb _ _ => hb.of_load false e) h _ []).setDependencies id _

/-- A file that was asked for and can be loaded has a requested node. -/
theorem requests_run {files : List String} {file : String} (hfile : file ∈ files)
    (hd : p.actionOf? file = some d) {content : α} (hload : ∀ i, loader i d = .ok content) :
    (run p files loader).Requests d := by
  obtain ⟨before, after, hfiles⟩ := List.append_of_mem (List.mem_eraseDups.2 hfile)
  unfold run
  dsimp only
  refine Requests.links ?_ _ _
  rw [hfiles, List.foldl_append, List.foldl_cons]
  refine Requests.requests ?_ after
  rw [request, hd]
  dsimp only
  rw [GraphBuild.load, hload]
  exact ⟨_, List.mem_append_right _ (List.mem_singleton_self _), rfl, rfl⟩

end Requests

end GraphBuild

end ColumnMetadata
