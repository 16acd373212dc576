import ColumnMetadata.Proofs.Project.Graph

/-!
# Which actions have nodes

A requested node is that of the first action of its file, and a node outside the request that of a
table or declaration under a key that no requested node has (`GraphBuild.Drawn`). So no file belongs
to nodes of both kinds if no two tables or declarations share one
(`GraphBuild.Drawn.requested_of_file`).
-/

namespace ColumnMetadata

/-! ## The index of targets -/

namespace TargetIndex

theorem mem_offer {index : TargetIndex} {key : String × String} {d : ActionDescriptor}
    {e : (String × String) × ActionDescriptor} (he : e ∈ (index.offer key d).entries) :
    e ∈ index.entries ∨ e.2 = d := by
  unfold offer at he
  split at he
  · exact .inl he
  · rcases List.mem_append.1 he with he | he
    · exact .inl he
    · exact .inr (List.mem_singleton.1 he ▸ rfl)

/-- Only the actions that are offered come into an index. -/
theorem mem_of_foldl {offered : TargetIndex → ActionDescriptor → TargetIndex}
    (hoffered : ∀ index d, ∀ e ∈ (offered index d).entries, e ∈ index.entries ∨ e.2 = d)
    {index : TargetIndex} {ds : List ActionDescriptor} {e : (String × String) × ActionDescriptor}
    (he : e ∈ (ds.foldl offered index).entries) : e ∈ index.entries ∨ e.2 ∈ ds := by
  induction ds generalizing index with
  | nil => exact .inl he
  | cons d ds ih =>
    rcases ih he with he | he
    · rcases hoffered index d e he with he | rfl
      · exact .inl he
      · exact .inr List.mem_cons_self
    · exact .inr (List.mem_cons_of_mem d he)

theorem mem_of_entries_ofProject {p : CompiledProject}
    {e : (String × String) × ActionDescriptor} (he : e ∈ (ofProject p).entries) :
    e.2 ∈ p.tables ++ p.declarations := by
  refine (mem_of_foldl (fun index d e he => ?_) he).elim (fun he => ?_) id
  · split at he
    · exact mem_offer he
    · exact .inl he
  · rcases mem_of_foldl (fun _ _ _ he => mem_offer he) he with he | he
    · cases he
    · exact he

/-- A target belongs to a table or a declaration. -/
theorem mem_of_resolve? {p : CompiledProject} {t : Target} {d : ActionDescriptor}
    (h : (ofProject p).resolve? t = some d) : d ∈ p.tables ++ p.declarations := by
  obtain ⟨before, after, he, -⟩ := List.lookup_eq_some_iff.1 h
  exact mem_of_entries_ofProject (e := (t.key, d))
    (he ▸ List.mem_append_right before List.mem_cons_self)

end TargetIndex

namespace GraphBuild

variable {α ε : Type} {loader : Nat → ActionDescriptor → Except ε α} {p : CompiledProject}
  {b : GraphBuild α ε}

/-! ## Where nodes come from -/

/-- How the nodes of a graph under construction come from the actions of a project. -/
structure Drawn (p : CompiledProject) (b : GraphBuild α ε) : Prop where
  known : ∀ n ∈ b.nodes, (b.ids.lookup n.action.target.key).isSome = true
  requested : ∀ n ∈ b.nodes, n.requested = true → p.actionOf? n.action.fileName = some n.action
  outside : ∀ n ∈ b.nodes, n.requested = false → n.action ∈ p.tables ++ p.declarations
  apart : ∀ n ∈ b.nodes, n.requested = false → ∀ m ∈ b.nodes, m.requested = true →
    m.action.target.key ≠ n.action.target.key

theorem isSome_lookup_push (b : GraphBuild α ε) (d : ActionDescriptor) (content : α)
    (requested : Bool) :
    ((b.push d content requested).ids.lookup d.target.key).isSome = true := by
  simp [lookup_push]

theorem lookup_push_of_isSome {key : String × String} (h : (b.ids.lookup key).isSome = true)
    (d : ActionDescriptor) (content : α) (requested : Bool) :
    ((b.push d content requested).ids.lookup key).isSome = true := by
  simp [lookup_push, h]

section Drawn

variable (h : b.Drawn p)

include h in
theorem Drawn.note (i : GraphIssue ε) : (b.note i).Drawn p :=
  ⟨h.known, h.requested, h.outside, h.apart⟩

include h in
theorem Drawn.fail (d : ActionDescriptor) (requested : Bool) (e : ε) :
    (b.fail d requested e).Drawn p :=
  ⟨h.known, h.requested, h.outside, h.apart⟩

include h in
theorem Drawn.known_push (d : ActionDescriptor) (content : α) (requested : Bool) :
    ∀ n ∈ (b.push d content requested).nodes,
      ((b.push d content requested).ids.lookup n.action.target.key).isSome = true := by
  refine List.forall_mem_append.2 ⟨fun n hn => ?_, List.forall_mem_singleton.2 ?_⟩
  · exact lookup_push_of_isSome (h.known n hn) d content requested
  · exact isSome_lookup_push b d content requested

include h in
/-- A node outside the request, under a key without a node. -/
theorem Drawn.push_outside {d : ActionDescriptor} (hd : d ∈ p.tables ++ p.declarations)
    (hnew : b.ids.lookup d.target.key = none) (content : α) :
    (b.push d content false).Drawn p where
  known := h.known_push d content false
  requested := List.forall_mem_append.2 ⟨h.requested, List.forall_mem_singleton.2 nofun⟩
  outside := List.forall_mem_append.2 ⟨h.outside, List.forall_mem_singleton.2 fun _ => hd⟩
  apart := by
    refine List.forall_mem_append.2 ⟨fun n hn hout => ?_, List.forall_mem_singleton.2 fun _ => ?_⟩
    · exact List.forall_mem_append.2 ⟨h.apart n hn hout, List.forall_mem_singleton.2 nofun⟩
    · refine List.forall_mem_append.2 ⟨fun m hm _ he => ?_, List.forall_mem_singleton.2 nofun⟩
      have hknown := h.known m hm
      rw [he, hnew] at hknown
      cases hknown

include h in
theorem Drawn.load_outside {d : ActionDescriptor} (hd : d ∈ p.tables ++ p.declarations)
    (hnew : b.ids.lookup d.target.key = none) : (b.load loader false d).Drawn p := by
  unfold load
  split
  · exact h.push_outside hd hnew _
  · exact h.fail d false _

include h in
/-- Asking for a file, before there are nodes outside the request. -/
theorem Drawn.request (hall : ∀ n ∈ b.nodes, n.requested = true) (file : String) :
    (b.request p loader file).Drawn p ∧
      ∀ n ∈ (b.request p loader file).nodes, n.requested = true := by
  unfold GraphBuild.request
  split
  · exact ⟨h.note _, hall⟩
  · next d hd =>
    unfold load
    split
    · next content _ =>
      have hall' : ∀ n ∈ (b.push d content true).nodes, n.requested = true :=
        List.forall_mem_append.2 ⟨hall, List.forall_mem_singleton.2 rfl⟩
      refine ⟨⟨h.known_push d content true, ?_, fun n hn hout => ?_, fun n hn hout => ?_⟩, hall'⟩
      · refine List.forall_mem_append.2 ⟨h.requested, List.forall_mem_singleton.2 fun _ => ?_⟩
        rwa [mem_of_actionOf? hd]
      · exact absurd ((hall' n hn).symm.trans hout) (Bool.false_ne_true ∘ Eq.symm)
      · exact absurd ((hall' n hn).symm.trans hout) (Bool.false_ne_true ∘ Eq.symm)
    · exact ⟨h.fail d true _, hall⟩

include h in
theorem Drawn.requests (hall : ∀ n ∈ b.nodes, n.requested = true) (files : List String) :
    (files.foldl (GraphBuild.request p loader) b).Drawn p := by
  induction files generalizing b with
  | nil => exact h
  | cons file files ih =>
    obtain ⟨hnext, hall'⟩ : (b.request p loader file).Drawn p ∧
        ∀ n ∈ (b.request p loader file).nodes, n.requested = true := h.request hall file
    exact ih hnext hall'

include h in
/-- Dependencies do not matter. -/
theorem Drawn.setDependencies (id : Nat) (found : List Nat) :
    Drawn p { b with nodes := b.nodes.modify id fun n => { n with dependencies := found } } := by
  have hnodes : ∀ n ∈ b.nodes.modify id fun n => { n with dependencies := found },
      ∃ m ∈ b.nodes, n.action = m.action ∧ n.requested = m.requested := by
    intro n hn
    obtain ⟨j, hj⟩ := List.getElem?_of_mem hn
    rw [List.getElem?_modify] at hj
    obtain ⟨m, hm, rfl⟩ := Option.map_eq_some_iff.1 hj
    refine ⟨m, List.mem_of_getElem? hm, ?_⟩
    split
    · exact ⟨rfl, rfl⟩
    · exact ⟨rfl, rfl⟩
  refine ⟨fun n hn => ?_, fun n hn hr => ?_, fun n hn hout => ?_, fun n hn hout m hm hr => ?_⟩
  · obtain ⟨n', hn', ha, -⟩ := hnodes n hn
    rw [ha]
    exact h.known n' hn'
  · obtain ⟨n', hn', ha, hr'⟩ := hnodes n hn
    rw [ha]
    exact h.requested n' hn' (hr' ▸ hr)
  · obtain ⟨n', hn', ha, hr'⟩ := hnodes n hn
    rw [ha]
    exact h.outside n' hn' (hr' ▸ hout)
  · obtain ⟨n', hn', ha, hr'⟩ := hnodes n hn
    obtain ⟨m', hm', hma, hmr⟩ := hnodes m hm
    rw [ha, hma]
    exact h.apart n' hn' (hr' ▸ hout) m' hm' (hmr ▸ hr)

include h in
theorem Drawn.link (id : Nat) : (b.link (.ofProject p) loader id).Drawn p := by
  unfold GraphBuild.link
  split
  · exact h
  · next n _ =>
    refine (follow_induction (P := Drawn p) n.action.fileName (fun _ _ hb => hb.note _)
      (fun _ d hb ht hnew => ?_) h n.action.dependencyTargets []).setDependencies id _
    obtain ⟨t, ht⟩ := ht
    exact hb.load_outside (TargetIndex.mem_of_resolve? ht) (lookup_eq_none_of_not_met hnew)

include h in
theorem Drawn.links (ids : List Nat) :
    (ids.foldl (GraphBuild.link (.ofProject p) loader) b).Drawn p := by
  induction ids generalizing b with
  | nil => exact h
  | cons id ids ih => exact ih (h.link id)

/-- The action of each node belongs to the project. -/
theorem Drawn.mem_actions (h : b.Drawn p) {n : GraphNode α} (hn : n ∈ b.nodes) :
    n.action ∈ p.actions := by
  cases hr : n.requested with
  | true => exact List.mem_of_find?_eq_some (h.requested n hn hr)
  | false => exact List.mem_append_left _ (List.mem_append_left _ (h.outside n hn hr))

/-- A node whose file is that of a requested node was requested itself. -/
theorem Drawn.requested_of_file (h : b.Drawn p)
    (hfiles : ∀ d ∈ p.tables ++ p.declarations, ∀ e ∈ p.tables ++ p.declarations,
      d.fileName = e.fileName → d = e)
    {m n : GraphNode α} (hm : m ∈ b.nodes) (hn : n ∈ b.nodes) (hr : m.requested = true)
    (he : n.action.fileName = m.action.fileName) : n.requested = true := by
  refine (Bool.not_eq_false _).mp fun hout => ?_
  have hmem := h.outside n hn hout
  have hfind := h.requested m hm hr
  rw [CompiledProject.actionOf?, CompiledProject.actions, List.append_assoc,
    List.find?_append] at hfind
  -- The first action of the file is a table or a declaration, since `n` has such an action.
  cases hfirst : (p.tables ++ p.declarations).find? fun d => d.fileName == m.action.fileName with
  | none => exact List.find?_eq_none.1 hfirst _ hmem (beq_iff_eq.2 he)
  | some d =>
    rw [hfirst, Option.some_or] at hfind
    have hd : d = m.action := Option.some.inj hfind
    subst hd
    have hsame := hfiles _ (List.mem_of_find?_eq_some hfirst) _ hmem he.symm
    exact h.apart n hn hout m hm hr (congrArg (fun d => d.target.key) hsame)

end Drawn

theorem drawn_empty : (empty : GraphBuild α ε).Drawn p := ⟨nofun, nofun, nofun, nofun⟩

/-- Every graph that is built is drawn from its project. -/
theorem drawn_run (p : CompiledProject) (files : List String)
    (loader : Nat → ActionDescriptor → Except ε α) : (GraphBuild.run p files loader).Drawn p :=
  (drawn_empty.requests nofun files.eraseDups).links _

end GraphBuild

end ColumnMetadata
