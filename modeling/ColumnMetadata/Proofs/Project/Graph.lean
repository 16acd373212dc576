import ColumnMetadata.Project.Graph
import ColumnMetadata.Proofs.Basic
import ColumnMetadata.Proofs.Project.Order

/-!
# What the graph of definition files is like

The requested nodes come first, one for each of the given files at most, and only they have
dependencies (`GraphBuild.Sound`, `GraphBuild.sound_run`). Once a graph has an order, each requested
node stands in it behind the requested nodes that it depends on (`DefinitionGraph.Ordering`), so the
dependencies are well founded (`DefinitionGraph.Ordering.wellFounded`).
-/

namespace ColumnMetadata

namespace DefinitionGraph

variable {α : Type} {g : DefinitionGraph α}

theorem nodup_requested : g.requested.Nodup := List.nodup_range.filter _

theorem mem_requested {id : Nat} :
    id ∈ g.requested ↔ ∃ n, g.node? id = some n ∧ n.requested = true := by
  rw [requested, List.mem_filter, List.mem_range, Option.any_eq_true]
  refine and_iff_right_of_imp fun ⟨n, hn, _⟩ => ?_
  exact (List.getElem?_eq_some_iff.1 hn).1

/-- An order of the requested nodes: each of them once, behind those that it depends on. -/
structure Ordering (g : DefinitionGraph α) (ids : List Nat) : Prop where
  nodup : ids.Nodup
  mem : ∀ id, id ∈ ids ↔ id ∈ g.requested
  ordered : Order.Ordered g.requestedDependencies ids

theorem ordering_of_order {ids : List Nat} (h : g.order = .ok ids) : g.Ordering ids := by
  unfold order at h
  split at h
  · next hblocked =>
    cases h
    refine ⟨Order.nodup_visited nodup_requested, fun id => ⟨?_, ?_⟩,
      Order.ordered_visited nodup_requested⟩
    · exact Order.mem_nodes_of_mem_visited nodup_requested
    · exact Order.mem_visited_of_blocked_eq_nil hblocked
  · cases h

/-- Only requested nodes have dependencies. -/
def LeavesOutside (g : DefinitionGraph α) : Prop :=
  ∀ id, id ∉ g.requested → g.dependencies id = []

theorem Ordering.mem_before {ids before after : List Nat} {id d : Nat} (h : g.Ordering ids)
    (hids : ids = before ++ id :: after) (hd : d ∈ g.dependencies id) (hdr : d ∈ g.requested) :
    d ∈ before := by
  obtain ⟨n, hn, hrequested⟩ := mem_requested.1 hdr
  refine h.ordered before id after hids d (List.mem_filter.2 ⟨hd, ?_⟩)
  rw [hn, Option.any_some, hrequested]

/-- What a node depends on comes before it; a node outside the request comes before all. -/
theorem Ordering.wellFounded {ids : List Nat} (h : g.Ordering ids) (hleaves : g.LeavesOutside) :
    WellFounded fun d id => d ∈ g.dependencies id := by
  let rank (id : Nat) : Nat := if id ∈ ids then ids.idxOf id + 1 else 0
  refine Subrelation.wf (r := InvImage (· < ·) rank) ?_ (InvImage.wf rank Nat.lt_wfRel.wf)
  intro d id hd
  change rank d < rank id
  have hid : id ∈ ids := by
    refine Decidable.byContradiction fun hid => ?_
    rw [hleaves id fun hr => hid ((h.mem id).2 hr)] at hd
    cases hd
  simp only [rank, if_pos hid]
  by_cases hmem : d ∈ ids
  · obtain ⟨n, hn, hrequested⟩ := mem_requested.1 ((h.mem d).1 hmem)
    have hdr : d ∈ g.requestedDependencies id :=
      List.mem_filter.2 ⟨hd, by rw [hn, Option.any_some, hrequested]⟩
    rw [if_pos hmem]
    exact Nat.succ_lt_succ (h.ordered.idxOf_lt hid hdr)
  · rw [if_neg hmem]
    exact Nat.succ_pos _

end DefinitionGraph

namespace GraphBuild

variable {α ε : Type} {loader : Nat → ActionDescriptor → Except ε α}

/-! ## What one step does -/

/-- A load leaves a node with what it gave, or an issue with its error. -/
theorem load_cases (loader : Nat → ActionDescriptor → Except ε α) (requested : Bool)
    (b : GraphBuild α ε) (d : ActionDescriptor) :
    (∃ content, loader b.loads.length d = .ok content ∧
      b.load loader requested d = b.push d content requested) ∨
    ∃ e, loader b.loads.length d = .error e ∧ b.load loader requested d = b.fail d requested e := by
  unfold load
  cases loader b.loads.length d with
  | ok content => exact .inl ⟨content, rfl, rfl⟩
  | error e => exact .inr ⟨e, rfl, rfl⟩

/-- The file of an action with this key has been loaded, or could not be. -/
def Met (b : GraphBuild α ε) (key : String × String) : Prop :=
  (b.ids.lookup key).isSome = true ∨ key ∈ b.failed

/-- An action under a key that was met before is not loaded, and any other one is. The node is that
of the key afterwards. -/
theorem nodeOf_cases (loader : Nat → ActionDescriptor → Except ε α) (b : GraphBuild α ε)
    (d : ActionDescriptor) :
    ∃ b', (b.Met d.target.key ∧ b' = b ∨ ¬b.Met d.target.key ∧ b' = b.load loader false d) ∧
      b.nodeOf loader d = (b', b'.ids.lookup d.target.key) := by
  unfold nodeOf Met
  cases hid : b.ids.lookup d.target.key with
  | some id => exact ⟨b, .inl ⟨.inl rfl, rfl⟩, by simp [hid]⟩
  | none =>
    by_cases hfailed : d.target.key ∈ b.failed
    · exact ⟨b, .inl ⟨.inr hfailed, rfl⟩, by simp [hfailed, hid]⟩
    · exact ⟨_, .inr ⟨by simp [hfailed], rfl⟩, by simp [hfailed]⟩

/-- A target that belongs to no action is noted. For any other one the node of its action, which is
loaded if its key has not been met, is noted among those that were found. -/
theorem follow_cases (index : TargetIndex) (loader : Nat → ActionDescriptor → Except ε α)
    (file : String) (b : GraphBuild α ε) (found : List Nat) (t : Target) :
    (index.resolve? t = none ∧
      follow index loader file (b, found) t = (b.note (.dependencyUnresolved file t), found)) ∨
    ∃ d b', index.resolve? t = some d ∧
      (b.Met d.target.key ∧ b' = b ∨ ¬b.Met d.target.key ∧ b' = b.load loader false d) ∧
      follow index loader file (b, found) t =
        (b', (b'.ids.lookup d.target.key).toList.foldl noted found) := by
  unfold follow
  cases hd : index.resolve? t with
  | none => exact .inl ⟨rfl, rfl⟩
  | some d =>
    obtain ⟨b', hb', hnode⟩ := nodeOf_cases loader b d
    refine .inr ⟨d, b', rfl, hb', ?_⟩
    simp only [hnode]
    cases b'.ids.lookup d.target.key with
    | none => rfl
    | some id => rfl

/-- What notes of unresolved targets keep, and loads of actions that the index knows under keys that
have not been met, following the targets of a file keeps. -/
theorem follow_induction {P : GraphBuild α ε → Prop} {index : TargetIndex}
    (file : String) (hnote : ∀ b t, P b → P (b.note (.dependencyUnresolved file t)))
    (hload : ∀ b d, P b → (∃ t, index.resolve? t = some d) → ¬b.Met d.target.key →
      P (b.load loader false d))
    {b : GraphBuild α ε} (h : P b) (targets : List Target) (found : List Nat) :
    P (targets.foldl (follow index loader file) (b, found)).1 := by
  induction targets generalizing b found with
  | nil => exact h
  | cons t targets ih =>
    rw [List.foldl_cons]
    rcases follow_cases index loader file b found t with
      ⟨-, hfollow⟩ | ⟨d, b', hd, ⟨-, rfl⟩ | ⟨hnew, rfl⟩, hfollow⟩
    · rw [hfollow]
      exact ih (hnote b t h) found
    · rw [hfollow]
      exact ih h _
    · rw [hfollow]
      exact ih (hload b d h ⟨t, hd⟩ hnew) _

theorem lookup_eq_none_of_not_met {b : GraphBuild α ε} {key : String × String} (h : ¬b.Met key) :
    b.ids.lookup key = none :=
  Option.not_isSome_iff_eq_none.1 fun hsome => h (.inl hsome)

/-- A new node is that of its key, unless there is one already. -/
theorem lookup_push (b : GraphBuild α ε) (d : ActionDescriptor) (content : α) (requested : Bool)
    (key : String × String) : (b.push d content requested).ids.lookup key =
      (b.ids.lookup key).or (if d.target.key = key then some b.nodes.length else none) := by
  unfold push
  dsimp only
  by_cases hkey : d.target.key = key
  · subst hkey
    cases hid : b.ids.lookup d.target.key with
    | none => simp [List.lookup_append, hid]
    | some id => simp [hid]
  · have hne : (key == d.target.key) = false := beq_eq_false_iff_ne.2 (Ne.symm hkey)
    rw [if_neg hkey, Option.or_none]
    split
    · rfl
    · simp [List.lookup_append, List.lookup_cons, hne]

/-! ## The nodes that were there -/

section Nodes

variable {b b' : GraphBuild α ε} {id : Nat} {n : GraphNode α}

theorem getElem?_of_prefix (h : b.nodes <+: b'.nodes) (hn : b.nodes[id]? = some n) :
    b'.nodes[id]? = some n := by
  obtain ⟨more, hmore⟩ := h
  rw [← hmore, List.getElem?_append_left (List.getElem?_eq_some_iff.1 hn).1, hn]

theorem prefix_load (b : GraphBuild α ε) (requested : Bool) (e : ActionDescriptor) :
    b.nodes <+: (b.load loader requested e).nodes := by
  unfold load
  split
  · exact List.prefix_append _ _
  · exact List.prefix_refl _

/-- Following targets only adds nodes. -/
theorem prefix_follows (index : TargetIndex) (loader : Nat → ActionDescriptor → Except ε α)
    (file : String) (b : GraphBuild α ε) (targets : List Target) (found : List Nat) :
    b.nodes <+: (targets.foldl (follow index loader file) (b, found)).1.nodes :=
  follow_induction (P := fun b' => b.nodes <+: b'.nodes) file (fun _ _ hb => hb)
    (fun b' d hb _ _ => hb.trans (prefix_load b' false d)) (List.prefix_refl _) targets found

/-- Linking a node sets its dependencies to what its targets lead to, and leaves the other nodes as
they are. -/
theorem getElem?_link (index : TargetIndex) (hn : b.nodes[id]? = some n) {j : Nat}
    {m : GraphNode α} (hm : b.nodes[j]? = some m) :
    (b.link index loader id).nodes[j]? =
      some (if id = j then
        { m with dependencies := (n.action.dependencyTargets.foldl
          (follow index loader n.action.fileName) (b, [])).2 }
        else m) := by
  have hprefix := prefix_follows index loader n.action.fileName b
    n.action.dependencyTargets []
  unfold link
  simp only [hn]
  rw [List.getElem?_modify, getElem?_of_prefix hprefix hm]
  rfl

theorem length_le_link (index : TargetIndex) (loader : Nat → ActionDescriptor → Except ε α)
    (b : GraphBuild α ε) (id : Nat) :
    b.nodes.length ≤ (b.link index loader id).nodes.length := by
  unfold link
  split
  · exact Nat.le_refl _
  · next n _ =>
    have hprefix := prefix_follows index loader n.action.fileName b
      n.action.dependencyTargets []
    simpa using hprefix.length_le

/-- What linking one more node adds to, linking all of them comes to. -/
theorem links_induction {P : List Nat → GraphBuild α ε → Prop} (index : TargetIndex)
    (hlink : ∀ done b id n, P done b → id ∉ done → b.nodes[id]? = some n →
      P (done ++ [id]) (b.link index loader id))
    {done ids : List Nat} (h : P done b) (hnodup : (done ++ ids).Nodup)
    (hids : ∀ id ∈ ids, id < b.nodes.length) :
    P (done ++ ids) (ids.foldl (link index loader) b) := by
  induction ids generalizing b done with
  | nil =>
    rw [List.append_nil]
    exact h
  | cons id ids ih =>
    obtain ⟨hid, hids⟩ := List.forall_mem_cons.1 hids
    have hnew : id ∉ done := fun hmem =>
      (List.nodup_append.1 hnodup).2.2 id hmem id List.mem_cons_self rfl
    have hnext := hlink done b id _ h hnew (List.getElem?_eq_getElem hid)
    have hlength := length_le_link index loader b id
    have hrest := ih hnext (by rwa [List.append_assoc])
      fun j hj => Nat.lt_of_lt_of_le (hids j hj) hlength
    rwa [List.append_assoc] at hrest

end Nodes

/-! ## Soundness -/

/-- The files of the requested nodes. -/
def requestedFiles (b : GraphBuild α ε) : List String :=
  (b.nodes.filter GraphNode.requested).map fun n => n.action.fileName

theorem requestedFiles_push (b : GraphBuild α ε) (d : ActionDescriptor) (content : α)
    (requested : Bool) : (b.push d content requested).requestedFiles =
      b.requestedFiles ++ if requested then [d.fileName] else [] := by
  rw [requestedFiles, push, List.filter_append, List.map_append]
  cases requested <;> rfl

/-- Elements picked by their places. -/
theorem map_filter_range {β γ : Type} (p : β → Bool) (f : β → γ) (default : γ) (xs : List β) :
    ((List.range xs.length).filter fun i => xs[i]?.any p).map
      (fun i => (xs[i]?.map f).getD default) = (xs.filter p).map f := by
  induction xs with
  | nil => rfl
  | cons x xs ih =>
    rw [List.length_cons, List.range_succ_eq_map, List.filter_cons, List.filter_map,
      List.filter_cons]
    cases hx : p x <;> simp [hx, ← ih, Function.comp_def]

/-- The requested nodes in a graph, by their files. -/
theorem map_file_requested (b : GraphBuild α ε) :
    b.graph.requested.map b.graph.file = b.requestedFiles :=
  map_filter_range GraphNode.requested (fun n => n.action.fileName) "" b.nodes

/-- What holds of a graph under construction when some of the files have been asked for and `count`
of them have a node. -/
structure Sound (loader : Nat → ActionDescriptor → Except ε α) (files : List String) (count : Nat)
    (b : GraphBuild α ε) : Prop where
  /-- What is in a node was loaded. -/
  content : ∀ n ∈ b.nodes, ∃ i, loader i n.action = .ok n.content
  count_le : count ≤ b.nodes.length
  requested : ∀ id n, b.nodes[id]? = some n → (n.requested = true ↔ id < count)
  files : b.requestedFiles.Sublist files
  leaf : ∀ n ∈ b.nodes, n.requested = false → n.dependencies = []

section Sound

variable {files : List String} {count : Nat} {b : GraphBuild α ε} (h : b.Sound loader files count)

include h in
theorem Sound.note (i : GraphIssue ε) : (b.note i).Sound loader files count :=
  ⟨h.content, h.count_le, h.requested, h.files, h.leaf⟩

include h in
theorem Sound.fail (d : ActionDescriptor) (requested : Bool) (e : ε) :
    (b.fail d requested e).Sound loader files count :=
  ⟨h.content, h.count_le, h.requested, h.files, h.leaf⟩

include h in
theorem Sound.push_outside {i : Nat} {d : ActionDescriptor} {content : α}
    (hcontent : loader i d = .ok content) : (b.push d content false).Sound loader files count where
  content := List.forall_mem_append.2 ⟨h.content, List.forall_mem_singleton.2 ⟨i, hcontent⟩⟩
  count_le := by
    rw [push, List.length_append]
    exact Nat.le_add_right_of_le h.count_le
  requested id n hn := by
    rw [push, List.getElem?_append] at hn
    split at hn
    · exact h.requested id n hn
    · rw [List.getElem?_singleton] at hn
      split at hn
      · cases hn
        have := h.count_le
        simp only [Bool.false_eq_true, false_iff]
        omega
      · cases hn
  files := by
    rw [requestedFiles_push, if_neg Bool.false_ne_true, List.append_nil]
    exact h.files
  leaf := List.forall_mem_append.2 ⟨h.leaf, List.forall_mem_singleton.2 fun _ => rfl⟩

include h in
theorem Sound.load_outside (d : ActionDescriptor) :
    (b.load loader false d).Sound loader files count := by
  unfold load
  split
  · next hcontent => exact h.push_outside hcontent
  · exact h.fail d false _

end Sound

theorem Sound.push_requested {files : List String} {b : GraphBuild α ε}
    (h : b.Sound loader files b.nodes.length) {i : Nat} {d : ActionDescriptor} {content : α}
    (hcontent : loader i d = .ok content) :
    (b.push d content true).Sound loader (files ++ [d.fileName])
      (b.push d content true).nodes.length where
  content := List.forall_mem_append.2 ⟨h.content, List.forall_mem_singleton.2 ⟨i, hcontent⟩⟩
  count_le := Nat.le_refl _
  requested id n hn := by
    have hid := (List.getElem?_eq_some_iff.1 hn).1
    rw [push, List.getElem?_append] at hn
    split at hn
    · next hlt => simp only [(h.requested id n hn).2 hlt, hid]
    · rw [List.getElem?_singleton] at hn
      split at hn
      · cases hn
        simp only [hid]
      · cases hn
  files := by
    rw [requestedFiles_push, if_pos rfl]
    exact h.files.append (.refl _)
  leaf := List.forall_mem_append.2 ⟨h.leaf, List.forall_mem_singleton.2 nofun⟩

theorem mem_of_actionOf? {p : CompiledProject} {file : String} {d : ActionDescriptor}
    (h : p.actionOf? file = some d) : d.fileName = file := by
  have := List.find?_some h
  simpa using this

/-- Asking for a file. -/
theorem Sound.request (p : CompiledProject) {files : List String} {b : GraphBuild α ε}
    (h : b.Sound loader files b.nodes.length) (file : String) :
    (b.request p loader file).Sound loader (files ++ [file])
      (b.request p loader file).nodes.length := by
  have hmore : b.Sound loader (files ++ [file]) b.nodes.length :=
    { h with files := h.files.trans (List.sublist_append_left files [file]) }
  unfold GraphBuild.request
  split
  · exact hmore.note _
  · next d hd =>
    unfold load
    split
    · next content hcontent =>
      have hpush := h.push_requested hcontent
      rwa [mem_of_actionOf? hd] at hpush
    · next e _ => exact hmore.fail d true e

theorem Sound.requests (p : CompiledProject) {done : List String} {b : GraphBuild α ε}
    (h : b.Sound loader done b.nodes.length) (files : List String) :
    (files.foldl (GraphBuild.request p loader) b).Sound loader (done ++ files)
      (files.foldl (GraphBuild.request p loader) b).nodes.length := by
  induction files generalizing b done with
  | nil => rwa [List.append_nil]
  | cons file files ih =>
    have hnext := ih (h.request p file)
    rwa [List.append_assoc] at hnext

theorem sound_empty :
    (empty : GraphBuild α ε).Sound loader [] (empty : GraphBuild α ε).nodes.length where
  content := nofun
  count_le := Nat.le_refl 0
  requested := nofun
  files := .slnil
  leaf := nofun

/-- A change that neither a test nor a reading sees. -/
theorem map_filter_modify {β γ : Type} {f : β → β} {p : β → Bool} {q : β → γ}
    (hp : ∀ x, p (f x) = p x) (hq : ∀ x, q (f x) = q x) (xs : List β) (i : Nat) :
    ((xs.modify i f).filter p).map q = (xs.filter p).map q := by
  induction xs generalizing i with
  | nil => cases i <;> rfl
  | cons x xs ih =>
    cases i with
    | zero => cases h : p x <;> simp [hp, hq, h]
    | succ i => cases h : p x <;> simp [ih, h]

section Link

variable {files : List String} {count : Nat} {b : GraphBuild α ε} (h : b.Sound loader files count)

include h in
/-- Setting the dependencies of a requested node. -/
theorem Sound.setDependencies {id : Nat} (hid : id < count) (found : List Nat) :
    Sound loader files count
      { b with nodes := b.nodes.modify id fun n => { n with dependencies := found } } := by
  have hnodes : ∀ j n, (b.nodes.modify id fun n => { n with dependencies := found })[j]? = some n →
      ∃ m, b.nodes[j]? = some m ∧
        n = if id = j then { m with dependencies := found } else m := by
    intro j n hn
    rw [List.getElem?_modify] at hn
    obtain ⟨m, hm, he⟩ := Option.map_eq_some_iff.1 hn
    exact ⟨m, hm, he.symm⟩
  refine ⟨fun n hn => ?_, ?_, fun j n hn => ?_, ?_, fun n hn => ?_⟩
  · obtain ⟨j, hj⟩ := List.getElem?_of_mem hn
    obtain ⟨m, hm, rfl⟩ := hnodes j n hj
    obtain ⟨i, hi⟩ := h.content m (List.mem_of_getElem? hm)
    exact ⟨i, by split <;> exact hi⟩
  · rw [List.length_modify]
    exact h.count_le
  · obtain ⟨m, hm, rfl⟩ := hnodes j n hn
    have := h.requested j m hm
    split <;> exact this
  · have hfiles := map_filter_modify (f := fun n : GraphNode α => { n with dependencies := found })
      (p := GraphNode.requested) (q := fun n => n.action.fileName) (fun _ => rfl) (fun _ => rfl)
      b.nodes id
    rw [requestedFiles, hfiles]
    exact h.files
  · obtain ⟨j, hj⟩ := List.getElem?_of_mem hn
    obtain ⟨m, hm, rfl⟩ := hnodes j n hj
    split
    · next he =>
      intro hrequested
      have := (h.requested j m hm).2 (he ▸ hid)
      exact absurd (hrequested.symm.trans this) Bool.false_ne_true
    · exact h.leaf m (List.mem_of_getElem? hm)

include h in
/-- Following the targets of a requested node. -/
theorem Sound.link (index : TargetIndex) {id : Nat} (hid : id < count) :
    (b.link index loader id).Sound loader files count := by
  unfold GraphBuild.link
  split
  · exact h
  · next n _ =>
    exact (follow_induction n.action.fileName (fun _ _ hb => hb.note _)
      (fun _ d hb _ _ => hb.load_outside d) h n.action.dependencyTargets []).setDependencies hid _

include h in
theorem Sound.links (index : TargetIndex) {ids : List Nat} (hids : ∀ id ∈ ids, id < count) :
    (ids.foldl (GraphBuild.link index loader) b).Sound loader files count := by
  induction ids generalizing b with
  | nil => exact h
  | cons id ids ih =>
    obtain ⟨hid, hids⟩ := List.forall_mem_cons.1 hids
    exact ih (h.link index hid) hids

end Link

/-- The graph when all files have been asked for and no targets have been followed. -/
def start (p : CompiledProject) (files : List String)
    (loader : Nat → ActionDescriptor → Except ε α) : GraphBuild α ε :=
  files.eraseDups.foldl (request p loader) empty

/-- Every graph that is built is sound: the nodes that were there at the start are requested. -/
theorem sound_run_start (p : CompiledProject) (files : List String)
    (loader : Nat → ActionDescriptor → Except ε α) :
    (run p files loader).Sound loader files.eraseDups (start p files loader).nodes.length := by
  have hstart := Sound.requests p (sound_empty : Sound loader [] _ empty) files.eraseDups
  exact hstart.links (.ofProject p) fun _ hid => List.mem_range.1 hid

theorem sound_run (p : CompiledProject) (files : List String)
    (loader : Nat → ActionDescriptor → Except ε α) :
    ∃ count, (GraphBuild.run p files loader).Sound loader files.eraseDups count :=
  ⟨_, sound_run_start p files loader⟩

theorem Sound.leavesOutside {files : List String} {count : Nat} {b : GraphBuild α ε}
    (h : b.Sound loader files count) : b.graph.LeavesOutside := by
  intro id hid
  unfold DefinitionGraph.dependencies
  cases hn : b.graph.node? id with
  | none => rfl
  | some n =>
    refine h.leaf n (List.mem_of_getElem? hn) ?_
    exact Bool.eq_false_iff.2 fun hr => hid (DefinitionGraph.mem_requested.2 ⟨n, hn, hr⟩)

/-- The file of a requested node was asked for. -/
theorem Sound.mem_files {files : List String} {count : Nat} {b : GraphBuild α ε}
    (h : b.Sound loader files count) {n : GraphNode α} (hn : n ∈ b.nodes)
    (hrequested : n.requested = true) : n.action.fileName ∈ files :=
  h.files.subset (List.mem_map.2 ⟨n, List.mem_filter.2 ⟨hn, hrequested⟩, rfl⟩)

/-- Two requested nodes of one file are the same. -/
theorem Sound.eq_of_file {files : List String} (hfiles : files.Nodup) {count : Nat}
    {b : GraphBuild α ε} (h : b.Sound loader files count) {i j : Nat} {m n : GraphNode α}
    (hm : b.nodes[i]? = some m) (hn : b.nodes[j]? = some n) (hmr : m.requested = true)
    (hnr : n.requested = true) (he : m.action.fileName = n.action.fileName) : i = j := by
  have hnodup : b.requestedFiles.Nodup := hfiles.sublist h.files
  exact eq_of_nodup_map_filter hnodup hm hn hmr hnr he

end GraphBuild

end ColumnMetadata
