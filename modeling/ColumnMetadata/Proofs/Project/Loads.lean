import ColumnMetadata.Proofs.Project.Requests
import Mathlib.Data.List.Nodup

/-!
# The loads of a build

The nodes of a graph and the issues about files that could not be loaded are what came of the loads,
in the order of the loads (`GraphBuild.Traced`): those of the files that were asked for, and then
those of files outside the request, each for a key that no load had before
(`GraphBuild.TracedFrom`). The node of a file outside is among the dependencies of the node that it
was loaded for (`GraphBuild.Reached`). So the loads account for the whole graph
(`GraphBuild.accounted_run`).
-/

namespace ColumnMetadata

namespace GraphIssue

variable {ε : Type}

/-- Whether the issue says that a file could not be loaded. -/
def isLoadFailure : GraphIssue ε → Bool
  | loadFailed _ _ _ => true
  | descriptorMissing _ | dependencyUnresolved _ _ => false

end GraphIssue

/-- The load that a node comes from: whether the file was asked for, and the action. -/
def GraphNode.call {α : Type} (n : GraphNode α) : Bool × ActionDescriptor := (n.requested, n.action)

/-- The load that a node comes from, with what it gave. -/
def GraphNode.origin {α : Type} (n : GraphNode α) : (Bool × ActionDescriptor) × α :=
  (n.call, n.content)

namespace GraphBuild

variable {α ε : Type} {loader : Nat → ActionDescriptor → Except ε α} {p : CompiledProject}

/-! ## What comes of loads -/

/-- The loads that give a content, in order. A load is an action, with whether its file was asked
for. -/
def answered (loader : Nat → ActionDescriptor → Except ε α)
    (calls : List (Bool × ActionDescriptor)) : List ((Bool × ActionDescriptor) × α) :=
  calls.zipIdx.filterMap fun (c, i) => (loader i c.2).toOption.map (Prod.mk c)

/-- The issues that the loads without a content leave, in order. -/
def refused (loader : Nat → ActionDescriptor → Except ε α)
    (calls : List (Bool × ActionDescriptor)) : List (GraphIssue ε) :=
  calls.zipIdx.filterMap fun (c, i) =>
    match loader i c.2 with
    | .ok _ => none
    | .error e => some (.loadFailed c.2.fileName c.1 e)

section Calls

variable {calls : List (Bool × ActionDescriptor)} {requested : Bool} {d : ActionDescriptor}

theorem answered_of_ok {content : α} (h : loader calls.length d = .ok content) :
    answered loader (calls ++ [(requested, d)]) =
      answered loader calls ++ [((requested, d), content)] := by
  simp [answered, List.zipIdx_append, h, Except.toOption]

theorem answered_of_error {e : ε} (h : loader calls.length d = .error e) :
    answered loader (calls ++ [(requested, d)]) = answered loader calls := by
  simp [answered, List.zipIdx_append, h, Except.toOption]

theorem refused_of_ok {content : α} (h : loader calls.length d = .ok content) :
    refused loader (calls ++ [(requested, d)]) = refused loader calls := by
  simp [refused, List.zipIdx_append, h]

theorem refused_of_error {e : ε} (h : loader calls.length d = .error e) :
    refused loader (calls ++ [(requested, d)]) =
      refused loader calls ++ [.loadFailed d.fileName requested e] := by
  simp [refused, List.zipIdx_append, h]

/-- What more loads give stands behind what those before them gave. -/
theorem answered_append (loader : Nat → ActionDescriptor → Except ε α)
    (calls more : List (Bool × ActionDescriptor)) :
    ∃ given, answered loader (calls ++ more) = answered loader calls ++ given ∧
      (given.map Prod.fst).Sublist more := by
  induction more generalizing calls with
  | nil => exact ⟨[], by simp, List.Sublist.slnil⟩
  | cons c more ih =>
    obtain ⟨given, hgiven, hsublist⟩ := ih (calls ++ [c])
    rw [← List.singleton_append, ← List.append_assoc, hgiven]
    cases hc : loader calls.length c.2 with
    | ok content =>
      rw [answered_of_ok hc, List.append_assoc]
      exact ⟨_, rfl, hsublist.cons_cons c⟩
    | error e =>
      rw [answered_of_error hc]
      exact ⟨given, rfl, hsublist.cons c⟩

theorem answered_sublist (loader : Nat → ActionDescriptor → Except ε α)
    (calls : List (Bool × ActionDescriptor)) :
    ((answered loader calls).map Prod.fst).Sublist calls := by
  obtain ⟨given, hgiven, hsublist⟩ := answered_append loader [] calls
  rw [List.nil_append] at hgiven
  rw [hgiven]
  exact hsublist

end Calls

/-! ## The trace of a build -/

/-- The state of a build is what came of its loads. -/
structure Traced (loader : Nat → ActionDescriptor → Except ε α)
    (calls : List (Bool × ActionDescriptor)) (b : GraphBuild α ε) : Prop where
  loads : b.loads = calls.map Prod.snd
  nodes : b.nodes.map GraphNode.origin = answered loader calls
  refused : b.issues.filter GraphIssue.isLoadFailure = refused loader calls
  /-- A key is noted as failed for a load that failed. -/
  failed : ∀ key ∈ b.failed, ∃ i d e,
    b.loads[i]? = some d ∧ d.target.key = key ∧ loader i d = .error e
  met : ∀ d ∈ b.loads, b.Met d.target.key
  /-- The node of a key is the first one of an action with the key. -/
  lookup : ∀ key, b.ids.lookup key =
    (b.nodes.map GraphNode.action).findIdx? fun d => d.target.key == key

theorem traced_empty : (empty : GraphBuild α ε).Traced loader [] where
  loads := rfl
  nodes := rfl
  refused := rfl
  failed := nofun
  met := nofun
  lookup _ := rfl

section Traced

variable {calls : List (Bool × ActionDescriptor)} {b : GraphBuild α ε} (h : b.Traced loader calls)

include h in
theorem Traced.note {i : GraphIssue ε} (hi : i.isLoadFailure = false) :
    (b.note i).Traced loader calls where
  loads := h.loads
  nodes := h.nodes
  refused := by
    rw [GraphBuild.note, List.filter_append, List.filter_cons_of_neg (by simp [hi])]
    simp [h.refused]
  failed := h.failed
  met := h.met
  lookup := h.lookup

theorem met_push {b : GraphBuild α ε} {key : String × String} (hmet : b.Met key)
    (d : ActionDescriptor) (content : α) (requested : Bool) :
    (b.push d content requested).Met key := by
  rcases hmet with hid | hfailed
  · exact .inl (by simp [lookup_push, hid])
  · exact .inr hfailed

theorem met_fail {b : GraphBuild α ε} {key : String × String} (hmet : b.Met key)
    (d : ActionDescriptor) (requested : Bool) (e : ε) : (b.fail d requested e).Met key := by
  rcases hmet with hid | hfailed
  · exact .inl hid
  · exact .inr (List.mem_append_left _ hfailed)

theorem met_load (loader : Nat → ActionDescriptor → Except ε α) (requested : Bool)
    (b : GraphBuild α ε) (d : ActionDescriptor) : (b.load loader requested d).Met d.target.key := by
  rcases load_cases loader requested b d with ⟨content, -, hload⟩ | ⟨e, -, hload⟩
  · exact .inl (by simp [hload, lookup_push])
  · exact .inr (hload ▸ List.mem_append_right _ (List.mem_singleton_self _))

include h in
/-- A load is one more call, and what came of it is put behind the rest. -/
theorem Traced.load (requested : Bool) (d : ActionDescriptor) :
    (b.load loader requested d).Traced loader (calls ++ [(requested, d)]) := by
  have hlength : b.loads.length = calls.length := by rw [h.loads, List.length_map]
  have hearlier : ∀ key ∈ b.failed, ∃ i d' e,
      (b.loads ++ [d])[i]? = some d' ∧ d'.target.key = key ∧ loader i d' = .error e := by
    intro key hkey
    obtain ⟨i, d', e, hd', hrest⟩ := h.failed key hkey
    refine ⟨i, d', e, ?_, hrest⟩
    rw [List.getElem?_append_left (List.getElem?_eq_some_iff.1 hd').1, hd']
  rcases load_cases loader requested b d with ⟨content, hcontent, hload⟩ | ⟨e, he, hload⟩
  · rw [hload]
    rw [hlength] at hcontent
    refine ⟨?_, ?_, ?_, hearlier, ?_, fun key => ?_⟩
    · simp [push, h.loads]
    · simp [push, h.nodes, answered_of_ok hcontent, GraphNode.origin, GraphNode.call]
    · rw [refused_of_ok hcontent]
      exact h.refused
    · refine List.forall_mem_append.2 ⟨fun a ha => ?_, List.forall_mem_singleton.2 ?_⟩
      · exact met_push (h.met a ha) d content requested
      · exact .inl (by simp [lookup_push])
    · rw [lookup_push, h.lookup, push, List.map_append, List.findIdx?_append]
      simp [List.findIdx?_cons]
  · rw [hload]
    refine ⟨?_, ?_, ?_, ?_, ?_, h.lookup⟩
    · simp [GraphBuild.fail, h.loads]
    · rw [answered_of_error (hlength ▸ he)]
      exact h.nodes
    · simp [GraphBuild.fail, h.refused, refused_of_error (hlength ▸ he), GraphIssue.isLoadFailure]
    · refine List.forall_mem_append.2 ⟨hearlier, List.forall_mem_singleton.2 ?_⟩
      exact ⟨b.loads.length, d, e, by simp [GraphBuild.fail], rfl, he⟩
    · refine List.forall_mem_append.2 ⟨fun a ha => ?_, List.forall_mem_singleton.2 ?_⟩
      · exact met_fail (h.met a ha) d requested e
      · exact .inr (List.mem_append_right _ (List.mem_singleton_self _))

include h in
theorem Traced.setDependencies (id : Nat) (found : List Nat) : Traced loader calls
    { b with nodes := b.nodes.modify id fun n => { n with dependencies := found } } where
  loads := h.loads
  nodes := by
    have horigins := map_modify_eq_self (f := GraphNode.origin)
      (g := fun n : GraphNode α => { n with dependencies := found }) (fun _ => rfl) b.nodes id
    exact horigins.trans h.nodes
  refused := h.refused
  failed := h.failed
  met := h.met
  lookup key := by
    have hactions := map_modify_eq_self (f := GraphNode.action)
      (g := fun n : GraphNode α => { n with dependencies := found }) (fun _ => rfl) b.nodes id
    rw [h.lookup, ← hactions]

include h in
/-- Asking for a file is a load of its action, if it defines one. -/
theorem Traced.request (p : CompiledProject) (file : String) :
    (b.request p loader file).Traced loader
      (calls ++ (p.actionOf? file).toList.map (Prod.mk true)) := by
  unfold GraphBuild.request
  cases p.actionOf? file with
  | none => simpa using h.note (i := .descriptorMissing file) rfl
  | some d => exact h.load true d

include h in
theorem Traced.requests (p : CompiledProject) (files : List String) :
    (files.foldl (GraphBuild.request p loader) b).Traced loader
      (calls ++ (files.filterMap p.actionOf?).map (Prod.mk true)) := by
  induction files generalizing b calls with
  | nil => simpa using h
  | cons file files ih =>
    have hnext := ih (h.request p file)
    rw [List.append_assoc, ← List.map_append] at hnext
    have hasked : (p.actionOf? file).toList ++ files.filterMap p.actionOf? =
        (file :: files).filterMap p.actionOf? := by
      cases hd : p.actionOf? file <;> simp [hd]
    rwa [hasked] at hnext

end Traced

/-! ## Loads outside the request -/

/-- The loads of a build: those of the actions that were asked for, and then others. -/
def callsOf (asked outside : List ActionDescriptor) : List (Bool × ActionDescriptor) :=
  asked.map (Prod.mk true) ++ outside.map (Prod.mk false)

/-- The loads of a build, with those outside the request for actions that the index knows, under
keys of their own. -/
structure TracedFrom (index : TargetIndex) (loader : Nat → ActionDescriptor → Except ε α)
    (asked outside : List ActionDescriptor) (b : GraphBuild α ε) : Prop where
  traced : b.Traced loader (callsOf asked outside)
  known : ∀ d ∈ outside, ∃ t, index.resolve? t = some d
  nodup : (outside.map fun d => d.target.key).Nodup
  apart : ∀ d ∈ outside, ∀ a ∈ asked, a.target.key ≠ d.target.key

section TracedFrom

variable {index : TargetIndex} {asked outside : List ActionDescriptor} {b : GraphBuild α ε}

theorem TracedFrom.loads (h : b.TracedFrom index loader asked outside) :
    b.loads = asked ++ outside := by
  rw [h.traced.loads, callsOf, List.map_append, List.map_map, List.map_map]
  exact congrArg₂ (· ++ ·) (List.map_id asked) (List.map_id outside)

theorem TracedFrom.note (h : b.TracedFrom index loader asked outside) {i : GraphIssue ε}
    (hi : i.isLoadFailure = false) : (b.note i).TracedFrom index loader asked outside :=
  ⟨h.traced.note hi, h.known, h.nodup, h.apart⟩

/-- A load for a key that has not been met is the first one for it. -/
theorem TracedFrom.load_outside (h : b.TracedFrom index loader asked outside) {d : ActionDescriptor}
    (hd : ∃ t, index.resolve? t = some d) (hnew : ¬b.Met d.target.key) :
    (b.load loader false d).TracedFrom index loader asked (outside ++ [d]) := by
  have hfirst : ∀ a ∈ asked ++ outside, a.target.key ≠ d.target.key := by
    intro a ha he
    rw [← h.loads] at ha
    exact hnew (he ▸ h.traced.met a ha)
  obtain ⟨hasked, houtside⟩ := List.forall_mem_append.1 hfirst
  refine ⟨?_, List.forall_mem_append.2 ⟨h.known, List.forall_mem_singleton.2 hd⟩, ?_, ?_⟩
  · rw [callsOf, List.map_append, ← List.append_assoc]
    exact h.traced.load false d
  · rw [List.map_append, List.nodup_append]
    refine ⟨h.nodup, List.pairwise_singleton _ _, ?_⟩
    intro key hkey key' hkey'
    obtain ⟨a, ha, rfl⟩ := List.mem_map.1 hkey
    rw [List.map_singleton, List.mem_singleton] at hkey'
    exact hkey' ▸ houtside a ha
  · exact List.forall_mem_append.2 ⟨h.apart, List.forall_mem_singleton.2 hasked⟩

theorem TracedFrom.setDependencies (h : b.TracedFrom index loader asked outside) (id : Nat)
    (found : List Nat) : TracedFrom index loader asked outside
      { b with nodes := b.nodes.modify id fun n => { n with dependencies := found } } :=
  ⟨h.traced.setDependencies id found, h.known, h.nodup, h.apart⟩

theorem TracedFrom.link (h : b.TracedFrom index loader asked outside) (id : Nat) :
    ∃ outside, (b.link index loader id).TracedFrom index loader asked outside := by
  unfold GraphBuild.link
  split
  · exact ⟨outside, h⟩
  · next n _ =>
    obtain ⟨outside, houtside⟩ : ∃ outside, TracedFrom index loader asked outside
        (n.action.dependencyTargets.foldl (follow index loader n.action.fileName) (b, [])).1 :=
      follow_induction (P := fun b => ∃ outside, b.TracedFrom index loader asked outside)
        n.action.fileName (fun _ _ ⟨outside, hb⟩ => ⟨outside, hb.note rfl⟩)
        (fun _ d ⟨outside, hb⟩ hd hnew => ⟨outside ++ [d], hb.load_outside hd hnew⟩)
        ⟨outside, h⟩ n.action.dependencyTargets []
    exact ⟨outside, houtside.setDependencies id _⟩

theorem TracedFrom.links (h : b.TracedFrom index loader asked outside) (ids : List Nat) :
    ∃ outside,
      (ids.foldl (GraphBuild.link index loader) b).TracedFrom index loader asked outside := by
  induction ids generalizing b outside with
  | nil => exact ⟨outside, h⟩
  | cons id ids ih =>
    obtain ⟨outside, hnext⟩ := h.link id
    exact ih hnext

/-- The nodes of the actions that were asked for come before those of the other ones. -/
theorem TracedFrom.split (h : b.TracedFrom index loader asked outside) :
    ∃ before after, b.nodes = before ++ after ∧
      before.map GraphNode.origin = answered loader (asked.map (Prod.mk true)) ∧
      (∀ n ∈ before, n.requested = true) ∧ (∀ n ∈ after, n.requested = false) ∧
      (after.map GraphNode.action).Sublist outside := by
  obtain ⟨given, hgiven, hlate⟩ :=
    answered_append loader (asked.map (Prod.mk true)) (outside.map (Prod.mk false))
  have hearly := answered_sublist loader (asked.map (Prod.mk true))
  have hnodes := h.traced.nodes
  rw [callsOf, hgiven] at hnodes
  obtain ⟨before, after, hsplit, hbefore, rfl⟩ := List.map_eq_append_iff.1 hnodes
  rw [← hbefore, List.map_map] at hearly
  rw [List.map_map] at hlate
  refine ⟨before, after, hsplit, hbefore, fun n hn => ?_, fun n hn => ?_, ?_⟩
  · obtain ⟨d, -, hd⟩ := List.mem_map.1 (hearly.subset (List.mem_map_of_mem hn))
    exact (congrArg Prod.fst hd).symm
  · obtain ⟨d, -, hd⟩ := List.mem_map.1 (hlate.subset (List.mem_map_of_mem hn))
    exact (congrArg Prod.fst hd).symm
  · simpa [Function.comp_def, GraphNode.origin, GraphNode.call] using hlate.map Prod.snd

end TracedFrom

/-- The actions that files ask for: the first one of each file, if there is one. -/
def asked (p : CompiledProject) (files : List String) : List ActionDescriptor :=
  files.eraseDups.filterMap p.actionOf?

theorem tracedFrom_run (p : CompiledProject) (files : List String)
    (loader : Nat → ActionDescriptor → Except ε α) :
    ∃ outside, (run p files loader).TracedFrom (.ofProject p) loader (asked p files) outside := by
  have hrequests : (start p files loader).Traced loader ((asked p files).map (Prod.mk true)) :=
    traced_empty.requests p files.eraseDups
  have hstart : (start p files loader).TracedFrom (.ofProject p) loader (asked p files) [] :=
    ⟨by simpa [callsOf] using hrequests, nofun, List.nodup_nil, nofun⟩
  exact hstart.links _

/-! ## Nodes that were reached -/

section Reached

variable {index : TargetIndex} {b : GraphBuild α ε} {file : String}

/-- Following a target finds the node that it adds. -/
theorem mem_follow {start : Nat} {found : List Nat} (t : Target)
    (hfound : ∀ id, start ≤ id → id < b.nodes.length → id ∈ found) :
    let s := follow index loader file (b, found) t
    ∀ id, start ≤ id → id < s.1.nodes.length → id ∈ s.2 := by
  intro s id hstart hid
  rcases follow_cases index loader file b found t with
    ⟨-, hfollow⟩ | ⟨d, b', -, ⟨-, rfl⟩ | ⟨hnew, rfl⟩, hfollow⟩
  · simp only [s, hfollow] at hid ⊢
    exact hfound id hstart hid
  · simp only [s, hfollow] at hid ⊢
    rw [foldl_noted]
    exact List.mem_append_left _ (hfound id hstart hid)
  · simp only [s, hfollow] at hid ⊢
    rcases load_cases loader false b d with ⟨content, -, hload⟩ | ⟨e, -, hload⟩
    · have hid' : (b.push d content false).ids.lookup d.target.key = some b.nodes.length := by
        rw [lookup_push, lookup_eq_none_of_not_met hnew, Option.none_or, if_pos rfl]
      rw [hload, hid']
      rw [hload, push, List.length_append, List.length_singleton] at hid
      refine mem_noted.2 ?_
      rcases Nat.lt_succ_iff_lt_or_eq.1 hid with hlt | rfl
      · exact .inl (hfound id hstart hlt)
      · exact .inr rfl
    · rw [hload] at hid
      rw [foldl_noted]
      exact List.mem_append_left _ (hfound id hstart hid)

theorem mem_follows {start : Nat} (targets : List Target) {found : List Nat}
    (hfound : ∀ id, start ≤ id → id < b.nodes.length → id ∈ found) :
    let s := targets.foldl (follow index loader file) (b, found)
    ∀ id, start ≤ id → id < s.1.nodes.length → id ∈ s.2 := by
  induction targets generalizing b found with
  | nil => exact hfound
  | cons t targets ih => exact ih (mem_follow t hfound)

/-- Each node behind the first `count` is among the dependencies of one of some nodes. -/
def Reached (count : Nat) (done : List Nat) (b : GraphBuild α ε) : Prop :=
  ∀ id, count ≤ id → id < b.nodes.length →
    ∃ i ∈ done, ∃ n, b.nodes[i]? = some n ∧ id ∈ n.dependencies

/-- The nodes that linking a node adds are among its dependencies. -/
theorem Reached.link {count : Nat} {done : List Nat} (h : Reached count done b) {id : Nat}
    {n : GraphNode α} (hnew : id ∉ done) (hn : b.nodes[id]? = some n) :
    Reached count (done ++ [id]) (b.link index loader id) := by
  intro j hcount hj
  by_cases hold : j < b.nodes.length
  · obtain ⟨i, hi, m, hm, hmem⟩ := h j hcount hold
    have hne : id ≠ i := fun he => hnew (he ▸ hi)
    refine ⟨i, List.mem_append_left _ hi, m, ?_, hmem⟩
    rw [getElem?_link index hn hm, if_neg hne]
  · refine ⟨id, List.mem_append_right _ (List.mem_singleton_self id), _, getElem?_link index hn hn,
      ?_⟩
    rw [if_pos rfl]
    have hnone : ∀ k, b.nodes.length ≤ k → k < b.nodes.length → k ∈ ([] : List Nat) :=
      fun k hk hlt => absurd hlt (Nat.not_lt.2 hk)
    refine mem_follows n.action.dependencyTargets hnone j (Nat.not_lt.1 hold) ?_
    unfold GraphBuild.link at hj
    simpa [hn] using hj

theorem reached_links (index : TargetIndex) (loader : Nat → ActionDescriptor → Except ε α)
    (b : GraphBuild α ε) : Reached b.nodes.length (List.range b.nodes.length)
      ((List.range b.nodes.length).foldl (link index loader) b) := by
  have hstart : Reached b.nodes.length [] b :=
    fun _ hcount hlt => absurd hlt (Nat.not_lt.2 hcount)
  exact links_induction (P := Reached b.nodes.length) index
    (fun _ _ _ _ hb hnew hn => hb.link hnew hn) hstart List.nodup_range
    fun _ hid => List.mem_range.1 hid

end Reached

/-! ## Accounting -/

/-- The actions that are asked for are those of distinct files. -/
theorem map_fileName_asked (p : CompiledProject) (files : List String) :
    (asked p files).map ActionDescriptor.fileName =
      files.eraseDups.filter fun file => (p.actionOf? file).isSome := by
  rw [asked, List.map_filterMap, ← List.filterMap_eq_filter]
  refine List.filterMap_congr fun file _ => ?_
  cases hd : p.actionOf? file with
  | none => simp [Option.guard, hd]
  | some d => simp [Option.guard, hd, mem_of_actionOf? hd]

theorem nodup_asked (p : CompiledProject) (files : List String) : (asked p files).Nodup := by
  refine List.Nodup.of_map ActionDescriptor.fileName ?_
  rw [map_fileName_asked]
  exact (nodup_eraseDups files).filter _

/-- No action is loaded twice. -/
theorem TracedFrom.nodup_loads {index : TargetIndex} {outside : List ActionDescriptor}
    {files : List String} {b : GraphBuild α ε}
    (h : b.TracedFrom index loader (asked p files) outside) : b.loads.Nodup := by
  rw [h.loads, List.nodup_append]
  refine ⟨nodup_asked p files, List.Nodup.of_map _ h.nodup, ?_⟩
  intro a ha d hd he
  exact h.apart d hd a ha (by rw [he])

/-- How the loads of a build account for its nodes and its issues, when `outside` are the actions
that were loaded without having been asked for. -/
structure Accounted (p : CompiledProject) (files : List String)
    (loader : Nat → ActionDescriptor → Except ε α) (outside : List ActionDescriptor)
    (b : GraphBuild α ε) : Prop where
  loads : b.loads = asked p files ++ outside
  nodup : b.loads.Nodup
  /-- No key is loaded for twice outside the request, nor one that was asked for. -/
  nodup_outside : (outside.map fun d => d.target.key).Nodup
  apart : ∀ d ∈ outside, ∀ a ∈ asked p files, a.target.key ≠ d.target.key
  nodes : b.nodes.map GraphNode.origin = answered loader (callsOf (asked p files) outside)
  refused : b.issues.filter GraphIssue.isLoadFailure =
    GraphBuild.refused loader (callsOf (asked p files) outside)
  /-- The requested nodes come first, and the others have no dependencies. -/
  split : ∃ before after, b.nodes = before ++ after ∧
    before.map GraphNode.origin = answered loader ((asked p files).map (Prod.mk true)) ∧
    (∀ n ∈ before, n.requested = true) ∧
    ∀ n ∈ after, n.requested = false ∧ n.dependencies = []
  reached : ∀ (id : Nat) (n : GraphNode α), b.nodes[id]? = some n → n.requested = false →
    ∃ (i : Nat) (m : GraphNode α),
      b.nodes[i]? = some m ∧ m.requested = true ∧ id ∈ m.dependencies
  /-- Each file is that of a requested node or of one issue. -/
  files : (b.issues.filterMap GraphIssue.settled? ++ b.requestedFiles).Perm files.eraseDups

/-- In every graph that is built, the nodes and the issues about loads are what the loads gave, no
action is loaded twice, and every node outside the request was reached from a requested one. -/
theorem accounted_run (p : CompiledProject) (files : List String)
    (loader : Nat → ActionDescriptor → Except ε α) :
    ∃ outside, (run p files loader).Accounted p files loader outside := by
  obtain ⟨outside, htraced⟩ := tracedFrom_run p files loader
  have hsound := sound_run_start p files loader
  refine ⟨outside, htraced.loads, htraced.nodup_loads, htraced.nodup, htraced.apart,
    htraced.traced.nodes, htraced.traced.refused, ?_, ?_, (settled_run p files loader).partition⟩
  · obtain ⟨before, after, hsplit, hbefore, hrequested, houtside, -⟩ := htraced.split
    refine ⟨before, after, hsplit, hbefore, hrequested, fun n hn => ⟨houtside n hn, ?_⟩⟩
    exact hsound.leaf n (hsplit ▸ List.mem_append_right before hn) (houtside n hn)
  · intro id n hn hout
    have hlate : (start p files loader).nodes.length ≤ id := by
      refine Nat.not_lt.1 fun hlt => ?_
      rw [(hsound.requested id n hn).2 hlt] at hout
      cases hout
    have hreached := reached_links (.ofProject p) loader (start p files loader)
    obtain ⟨i, hi, m, hm, hmem⟩ := hreached id hlate (List.getElem?_eq_some_iff.1 hn).1
    exact ⟨i, m, hm, (hsound.requested i m hm).2 (List.mem_range.1 hi), hmem⟩

end GraphBuild

end ColumnMetadata
