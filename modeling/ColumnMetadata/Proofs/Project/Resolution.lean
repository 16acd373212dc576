import ColumnMetadata.Proofs.Project.Actions
import ColumnMetadata.Proofs.Project.Loads
import Mathlib.Data.List.Count

/-!
# Where dependencies lead

The index of a project knows the first action whose target has a key, and failing that the first
one whose canonical target has it (`TargetIndex.resolve?_ofProject`). What a key leads to does not
change any more once it has been met (`GraphBuild.Extends`), so the dependencies of a linked node
can be read off the graph at any later time (`GraphBuild.Linked`), and off the finished graph
without the state of the build (`GraphBuild.dependencies_eq`). A target that belongs to no action is
an issue each time that it is given (`GraphBuild.count_unresolved`). All of it together is
`GraphBuild.resolved_run`.
-/

namespace ColumnMetadata

/-! ## The action that makes a table -/

/-- The action that makes a table: the first one of a table or a declaration with its names, or else
the first one that has them in its canonical target. -/
def CompiledProject.makerOf? (p : CompiledProject) (t : Target) : Option ActionDescriptor :=
  ((p.tables ++ p.declarations).find? fun d => d.target.key == t.key).or
    ((p.tables ++ p.declarations).find? fun d => d.canonicalTarget.any fun c => c.key == t.key)

namespace TargetIndex

/-- The targets in a file that belong to no action, with the file. -/
def missing (index : TargetIndex) (file : String) (targets : List Target) :
    List (String × Target) :=
  (targets.filter fun t => (index.resolve? t).isNone).map (Prod.mk file)

theorem find?_offer (index : TargetIndex) (key key' : String × String) (d : ActionDescriptor) :
    (index.offer key d).find? key' =
      (index.find? key').or (if key == key' then some d else none) := by
  unfold offer find?
  by_cases hkey : key = key'
  · subst hkey
    cases hd : index.entries.lookup key with
    | none => simp [List.lookup_append, hd]
    | some d' => simp [hd]
  · have hne : (key == key') = false := beq_eq_false_iff_ne.2 hkey
    have hne' : (key' == key) = false := beq_eq_false_iff_ne.2 (Ne.symm hkey)
    rw [hne, if_neg Bool.false_ne_true, Option.or_none]
    split
    · rfl
    · simp [List.lookup_append, List.lookup_cons, hne']

/-- Of actions offered one after the other, the first one for a key counts. -/
theorem find?_foldl {offered : TargetIndex → ActionDescriptor → TargetIndex}
    {key : String × String} {q : ActionDescriptor → Bool}
    (hoffered : ∀ index d, (offered index d).find? key =
      (index.find? key).or (if q d then some d else none))
    (index : TargetIndex) (ds : List ActionDescriptor) :
    (ds.foldl offered index).find? key = (index.find? key).or (ds.find? q) := by
  induction ds generalizing index with
  | nil => simp
  | cons d ds ih =>
    rw [List.foldl_cons, ih, hoffered, Option.or_assoc, List.find?_cons]
    cases q d <;> rfl

theorem resolve?_ofProject (p : CompiledProject) (t : Target) :
    (ofProject p).resolve? t = p.makerOf? t := by
  have hoffer (index : TargetIndex) (d : ActionDescriptor) :=
    find?_offer index d.target.key t.key d
  have htargets := find?_foldl hoffer (TargetIndex.mk []) (p.tables ++ p.declarations)
  unfold resolve? ofProject CompiledProject.makerOf?
  dsimp only
  rw [find?_foldl (q := fun d => d.canonicalTarget.any fun c => c.key == t.key), htargets]
  · rfl
  · intro index d
    cases d.canonicalTarget with
    | none => simp
    | some c => exact find?_offer index c.key t.key d

end TargetIndex

/-- The file and the target of an issue about a target that belongs to no action. -/
def GraphIssue.unresolved? {ε : Type} : GraphIssue ε → Option (String × Target)
  | dependencyUnresolved file t => some (file, t)
  | descriptorMissing _ | loadFailed _ _ _ => none

/-! ## The node of a key -/

namespace DefinitionGraph

variable {α : Type}

/-- The node for a key: the first requested one that has it, or else the first one outside the
request. -/
def nodeFor? (g : DefinitionGraph α) (key : String × String) : Option Nat :=
  (g.nodes.findIdx? fun n => n.requested && n.action.target.key == key).or
    (g.nodes.findIdx? fun n => !n.requested && n.action.target.key == key)

theorem exists_of_nodeFor? {g : DefinitionGraph α} {key : String × String} {id : Nat}
    (h : g.nodeFor? key = some id) : ∃ n, g.nodes[id]? = some n ∧ n.action.target.key = key := by
  have hfound {q : GraphNode α → Bool}
      (hfirst : (g.nodes.findIdx? fun n => q n && n.action.target.key == key) = some id) :
      ∃ n, g.nodes[id]? = some n ∧ n.action.target.key = key := by
    obtain ⟨hid, hkey, -⟩ := List.findIdx?_eq_some_iff_getElem.1 hfirst
    exact ⟨_, List.getElem?_eq_getElem hid, beq_iff_eq.1 (Bool.and_eq_true_iff.1 hkey).2⟩
  rcases Option.or_eq_some_iff.1 h with hrequested | ⟨-, houtside⟩
  · exact hfound hrequested
  · exact hfound houtside

/-- The node that a target leads to. -/
def edge? (g : DefinitionGraph α) (p : CompiledProject) (t : Target) : Option Nat :=
  (p.makerOf? t).bind fun d => g.nodeFor? d.target.key

end DefinitionGraph

theorem findIdx?_congr {β : Type} {p q : β → Bool} {xs : List β} (h : ∀ x ∈ xs, p x = q x) :
    xs.findIdx? p = xs.findIdx? q := by
  induction xs with
  | nil => rfl
  | cons x xs ih =>
    obtain ⟨hx, hxs⟩ := List.forall_mem_cons.1 h
    rw [List.findIdx?_cons, List.findIdx?_cons, hx, ih hxs]

/-- When the elements with one property come first, so does the first one of them with another. -/
theorem findIdx?_of_split {β : Type} {p q : β → Bool} {before after : List β}
    (hbefore : ∀ x ∈ before, p x = true) (hafter : ∀ x ∈ after, p x = false) :
    ((before ++ after).findIdx? fun x => p x && q x).or
        ((before ++ after).findIdx? fun x => !p x && q x) = (before ++ after).findIdx? q := by
  have hearly : (before.findIdx? fun x => p x && q x) = before.findIdx? q :=
    findIdx?_congr fun x hx => by rw [hbefore x hx, Bool.true_and]
  have hlate : (after.findIdx? fun x => !p x && q x) = after.findIdx? q :=
    findIdx?_congr fun x hx => by rw [hafter x hx, Bool.not_false, Bool.true_and]
  have hnotEarly : (before.findIdx? fun x => !p x && q x) = none :=
    List.findIdx?_eq_none_iff.2 fun x hx => by rw [hbefore x hx, Bool.not_true, Bool.false_and]
  have hnotLate : (after.findIdx? fun x => p x && q x) = none :=
    List.findIdx?_eq_none_iff.2 fun x hx => by rw [hafter x hx, Bool.false_and]
  simp only [List.findIdx?_append, hearly, hlate, hnotEarly, hnotLate, Option.map_none,
    Option.or_none, Option.none_or]

namespace GraphBuild

variable {α ε : Type} {loader : Nat → ActionDescriptor → Except ε α} {p : CompiledProject}
  {index : TargetIndex} {b b' b'' : GraphBuild α ε}

/-- Keys that were met stay so, with the nodes that they lead to. -/
structure Extends (b b' : GraphBuild α ε) : Prop where
  met : ∀ key, b.Met key → b'.Met key
  lookup : ∀ key, b.Met key → b'.ids.lookup key = b.ids.lookup key

theorem Extends.refl (b : GraphBuild α ε) : b.Extends b := ⟨fun _ h => h, fun _ _ => rfl⟩

theorem Extends.trans (h : b.Extends b') (h' : b'.Extends b'') : b.Extends b'' where
  met key hkey := h'.met key (h.met key hkey)
  lookup key hkey := (h'.lookup key (h.met key hkey)).trans (h.lookup key hkey)

theorem Extends.note (h : b.Extends b') (i : GraphIssue ε) : b.Extends (b'.note i) :=
  ⟨h.met, h.lookup⟩

theorem extends_load {d : ActionDescriptor} (hnew : ¬b.Met d.target.key) (requested : Bool) :
    b.Extends (b.load loader requested d) := by
  rcases load_cases loader requested b d with ⟨content, -, hload⟩ | ⟨e, -, hload⟩
  · rw [hload]
    refine ⟨fun key hkey => met_push hkey d content requested, fun key hkey => ?_⟩
    have hne : d.target.key ≠ key := fun he => hnew (he ▸ hkey)
    rw [lookup_push, if_neg hne, Option.or_none]
  · rw [hload]
    exact ⟨fun key hkey => met_fail hkey d requested e, fun _ _ => rfl⟩

/-! ## Edges -/

/-- All actions that targets belong to have been met. -/
def MetAll (b : GraphBuild α ε) (index : TargetIndex) (targets : List Target) : Prop :=
  ∀ t ∈ targets, ∀ d, index.resolve? t = some d → b.Met d.target.key

/-- The node that a target leads to, by now. -/
def edge? (b : GraphBuild α ε) (index : TargetIndex) (t : Target) : Option Nat :=
  (index.resolve? t).bind fun d => b.ids.lookup d.target.key

theorem Extends.metAll (h : b.Extends b') {targets : List Target} (hmet : b.MetAll index targets) :
    b'.MetAll index targets :=
  fun t ht d hd => h.met _ (hmet t ht d hd)

/-- Edges do not change any more once the actions that the targets belong to have been met. -/
theorem Extends.filterMap_edge? (h : b.Extends b') {targets : List Target}
    (hmet : b.MetAll index targets) :
    targets.filterMap (b'.edge? index) = targets.filterMap (b.edge? index) := by
  refine List.filterMap_congr fun t ht => ?_
  unfold edge?
  cases hd : index.resolve? t with
  | none => rfl
  | some d => exact h.lookup _ (hmet t ht d hd)

/-- The targets that issues say belong to no action, in order. -/
def unresolved (b : GraphBuild α ε) : List (String × Target) :=
  b.issues.filterMap GraphIssue.unresolved?

theorem unresolved_load (loader : Nat → ActionDescriptor → Except ε α) (requested : Bool)
    (b : GraphBuild α ε) (d : ActionDescriptor) :
    (b.load loader requested d).unresolved = b.unresolved := by
  rcases load_cases loader requested b d with ⟨content, -, hload⟩ | ⟨e, -, hload⟩
  · rw [hload]
    rfl
  · rw [hload]
    simp [unresolved, fail, GraphIssue.unresolved?]

/-- Asking for files finds no targets. -/
theorem unresolved_requests (p : CompiledProject)
    (loader : Nat → ActionDescriptor → Except ε α) (b : GraphBuild α ε) (files : List String) :
    (files.foldl (request p loader) b).unresolved = b.unresolved := by
  induction files generalizing b with
  | nil => rfl
  | cons file files ih =>
    rw [List.foldl_cons, ih]
    unfold request
    split
    · simp [unresolved, note, GraphIssue.unresolved?]
    · exact unresolved_load loader true b _

/-- What following targets of a file comes to, apart from the nodes that are found: their actions
have been met, and those that belong to none have become issues. -/
structure Followed (index : TargetIndex) (file : String) (targets : List Target)
    (b b' : GraphBuild α ε) : Prop where
  later : b.Extends b'
  met : b'.MetAll index targets
  unresolved : b'.unresolved = b.unresolved ++ index.missing file targets

theorem Followed.append {file : String} {targets targets' : List Target}
    (h : Followed index file targets b b') (h' : Followed index file targets' b' b'') :
    Followed index file (targets ++ targets') b b'' where
  later := h.later.trans h'.later
  met := List.forall_mem_append.2 ⟨h'.later.metAll h.met, h'.met⟩
  unresolved := by
    rw [h'.unresolved, h.unresolved, List.append_assoc, TargetIndex.missing, TargetIndex.missing,
      TargetIndex.missing, List.filter_append, List.map_append]

/-- Following a target notes the node that it leads to. -/
theorem follow_eq (index : TargetIndex) (loader : Nat → ActionDescriptor → Except ε α)
    (file : String) (b : GraphBuild α ε) (found : List Nat) (t : Target) :
    ∃ b', Followed index file [t] b b' ∧ follow index loader file (b, found) t =
      (b', ([t].filterMap (b'.edge? index)).foldl noted found) := by
  rcases follow_cases index loader file b found t with
    ⟨hnone, hfollow⟩ | ⟨d, b', hd, hb', hfollow⟩
  · have hedge (b : GraphBuild α ε) : b.edge? index t = none := by
      rw [edge?, hnone, Option.bind_none]
    refine ⟨b.note (.dependencyUnresolved file t), ⟨(Extends.refl b).note _, ?_, ?_⟩, ?_⟩
    · refine List.forall_mem_singleton.2 fun d hd => ?_
      rw [hnone] at hd
      cases hd
    · simp [unresolved, note, TargetIndex.missing, GraphIssue.unresolved?, hnone]
    · rw [hfollow, List.filterMap_cons_none (hedge _), List.filterMap_nil, List.foldl_nil]
  · have hmissing : index.missing file [t] = [] := by simp [TargetIndex.missing, hd]
    have hedge : b'.edge? index t = b'.ids.lookup d.target.key := by
      rw [edge?, hd, Option.bind_some]
    have hmet (hself : b'.Met d.target.key) : b'.MetAll index [t] := by
      refine List.forall_mem_singleton.2 fun d' hd' => ?_
      rw [hd] at hd'
      cases hd'
      exact hself
    refine ⟨b', ?_, ?_⟩
    · rcases hb' with ⟨hold, rfl⟩ | ⟨hnew, rfl⟩
      · exact ⟨.refl _, hmet hold, by rw [hmissing, List.append_nil]⟩
      · refine ⟨extends_load hnew false, hmet (met_load loader false b d), ?_⟩
        rw [unresolved_load, hmissing, List.append_nil]
    · rw [hfollow, ← hedge]
      cases hid : b'.edge? index t with
      | none => rw [List.filterMap_cons_none hid]; rfl
      | some id => rw [List.filterMap_cons_some hid]; rfl

/-- Following targets notes the nodes that they lead to in the end. -/
theorem follows_eq (index : TargetIndex) (loader : Nat → ActionDescriptor → Except ε α)
    (file : String) (b : GraphBuild α ε) (found : List Nat) (targets : List Target) :
    ∃ b', Followed index file targets b b' ∧
      targets.foldl (follow index loader file) (b, found) =
        (b', (targets.filterMap (b'.edge? index)).foldl noted found) := by
  induction targets generalizing b found with
  | nil => exact ⟨b, ⟨.refl b, nofun, (List.append_nil _).symm⟩, rfl⟩
  | cons t targets ih =>
    obtain ⟨b₁, hfirst, hfollow⟩ := follow_eq index loader file b found t
    obtain ⟨b₂, hrest, hfollows⟩ := ih b₁ (([t].filterMap (b₁.edge? index)).foldl noted found)
    have hedges : (t :: targets).filterMap (b₂.edge? index) =
        [t].filterMap (b₁.edge? index) ++ targets.filterMap (b₂.edge? index) := by
      rw [← List.singleton_append, List.filterMap_append,
        hrest.later.filterMap_edge? hfirst.met]
    refine ⟨b₂, hfirst.append hrest, ?_⟩
    rw [List.foldl_cons, hfollow, hfollows, hedges, List.foldl_append]

/-! ## Linked nodes -/

/-- Some nodes have been linked: the actions that their targets belong to have been met, their
dependencies are the nodes that these lead to, and their other targets are the issues. -/
structure Linked (index : TargetIndex) (done : List Nat) (b : GraphBuild α ε) : Prop where
  nodes : ∀ id ∈ done, ∃ n, b.nodes[id]? = some n ∧ b.MetAll index n.action.dependencyTargets ∧
    n.dependencies = (n.action.dependencyTargets.filterMap (b.edge? index)).eraseDups
  unresolved : b.unresolved = done.flatMap fun id => ((b.nodes[id]?).map fun n =>
    index.missing n.action.fileName n.action.dependencyTargets).getD []

theorem Linked.link {done : List Nat} (h : Linked index done b) {id : Nat} {n : GraphNode α}
    (hnew : id ∉ done) (hn : b.nodes[id]? = some n) :
    Linked index (done ++ [id]) (b.link index loader id) := by
  obtain ⟨b', hfollowed, hfollows⟩ :=
    follows_eq index loader n.action.fileName b [] n.action.dependencyTargets
  have hextends : b'.Extends (b.link index loader id) ∧
      (b.link index loader id).unresolved = b'.unresolved := by
    unfold GraphBuild.link
    simp only [hn, hfollows]
    exact ⟨⟨fun _ hkey => hkey, fun _ _ => rfl⟩, rfl⟩
  have hold : ∀ i ∈ done, ∀ m, b.nodes[i]? = some m →
      (b.link index loader id).nodes[i]? = some m := by
    intro i hi m hm
    have hne : id ≠ i := fun he => hnew (he ▸ hi)
    rw [getElem?_link index hn hm, if_neg hne]
  have hself : (b.link index loader id).nodes[id]? = some { n with
      dependencies := (n.action.dependencyTargets.filterMap (b'.edge? index)).eraseDups } := by
    rw [getElem?_link index hn hn, if_pos rfl, hfollows, foldl_noted_nil]
  refine ⟨List.forall_mem_append.2 ⟨fun i hi => ?_, List.forall_mem_singleton.2 ?_⟩, ?_⟩
  · obtain ⟨m, hm, hmet, hdependencies⟩ := h.nodes i hi
    have hlater := hfollowed.later.trans hextends.1
    exact ⟨m, hold i hi m hm, hlater.metAll hmet,
      by rw [hdependencies, hlater.filterMap_edge? hmet]⟩
  · exact ⟨_, hself, hextends.1.metAll hfollowed.met,
      by rw [hextends.1.filterMap_edge? hfollowed.met]⟩
  · rw [hextends.2, hfollowed.unresolved, h.unresolved, List.flatMap_append, List.flatMap_singleton,
      hself]
    congr 1
    refine List.flatMap_congr fun i hi => ?_
    obtain ⟨m, hm, -⟩ := h.nodes i hi
    rw [hold i hi m hm, hm]

theorem linked_run (p : CompiledProject) (files : List String)
    (loader : Nat → ActionDescriptor → Except ε α) :
    Linked (.ofProject p) (List.range (start p files loader).nodes.length)
      (run p files loader) := by
  have hstart : Linked (.ofProject p) [] (start p files loader) :=
    ⟨nofun, unresolved_requests p loader empty files.eraseDups⟩
  exact links_induction (P := Linked (.ofProject p)) (.ofProject p)
    (fun _ _ _ _ hb hnew hn => hb.link hnew hn) hstart List.nodup_range
    fun _ hid => List.mem_range.1 hid

/-! ## The finished graph -/

/-- The node of a key, said by the graph alone. -/
theorem TracedFrom.lookup_eq {asked outside : List ActionDescriptor}
    (h : b.TracedFrom index loader asked outside) (key : String × String) :
    b.ids.lookup key = b.graph.nodeFor? key := by
  obtain ⟨before, after, hsplit, -, hbefore, hafter, -⟩ := h.split
  have hfirst := findIdx?_of_split (q := fun n => n.action.target.key == key) hbefore hafter
  rw [← hsplit] at hfirst
  rw [h.traced.lookup, List.findIdx?_map]
  exact hfirst.symm

theorem TracedFrom.edge?_eq {asked outside : List ActionDescriptor}
    (h : b.TracedFrom index loader asked outside) : b.edge? (.ofProject p) = b.graph.edge? p := by
  funext t
  simp only [edge?, DefinitionGraph.edge?, TargetIndex.resolve?_ofProject, h.lookup_eq]

/-- Nodes outside the request have keys of their own. -/
theorem TracedFrom.eq_of_key {asked outside : List ActionDescriptor}
    (h : b.TracedFrom index loader asked outside) {i j : Nat} {m n : GraphNode α}
    (hm : b.nodes[i]? = some m) (hn : b.nodes[j]? = some n) (hmr : m.requested = false)
    (hnr : n.requested = false) (he : m.action.target.key = n.action.target.key) : i = j := by
  obtain ⟨before, after, hsplit, -, hbefore, hafter, hsublist⟩ := h.split
  have houtside : b.nodes.filter (fun n => !n.requested) = after := by
    rw [hsplit, List.filter_append, List.filter_eq_nil_iff.2, List.filter_eq_self.2,
      List.nil_append]
    · intro n hn
      rw [hafter n hn, Bool.not_false]
    · intro n hn
      rw [hbefore n hn, Bool.not_true]
      exact Bool.false_ne_true
  have hnodup : (after.map fun n => n.action.target.key).Nodup := by
    have hkeys := h.nodup.sublist (hsublist.map fun d => d.target.key)
    rwa [List.map_map] at hkeys
  rw [← houtside] at hnodup
  exact eq_of_nodup_map_filter hnodup hm hn (by rw [hmr]; rfl) (by rw [hnr]; rfl) he

theorem count_missing (index : TargetIndex) (file : String) (targets : List Target) (t : Target) :
    (index.missing file targets).count (file, t) =
      if index.resolve? t = none then targets.count t else 0 := by
  have hinjective : Function.Injective (Prod.mk file : Target → String × Target) :=
    fun _ _ he => congrArg Prod.snd he
  rw [TargetIndex.missing, List.count_map_of_injective _ _ hinjective]
  cases hd : index.resolve? t with
  | none => rw [if_pos rfl, List.count_filter (by rw [hd]; rfl)]
  | some d =>
    rw [if_neg nofun]
    refine List.count_eq_zero.2 fun ht => ?_
    have hmissing := (List.mem_filter.1 ht).2
    rw [hd] at hmissing
    cases hmissing

section Run

variable {files : List String} {i j : Nat} {m n : GraphNode α}

/-- No action has two nodes. -/
theorem eq_of_action (hm : (run p files loader).nodes[i]? = some m)
    (hn : (run p files loader).nodes[j]? = some n) (he : m.action = n.action) : i = j := by
  have hsound := sound_run_start p files loader
  have hapart := (drawn_run p files loader).apart
  obtain ⟨outside, htraced⟩ := tracedFrom_run p files loader
  have hkey : m.action.target.key = n.action.target.key := by rw [he]
  cases hmr : m.requested with
  | true =>
    cases hnr : n.requested with
    | true => exact hsound.eq_of_file (nodup_eraseDups files) hm hn hmr hnr (by rw [he])
    | false =>
      exact absurd hkey (hapart n (List.mem_of_getElem? hn) hnr m (List.mem_of_getElem? hm) hmr)
  | false =>
    cases hnr : n.requested with
    | true =>
      exact absurd hkey.symm
        (hapart m (List.mem_of_getElem? hm) hmr n (List.mem_of_getElem? hn) hnr)
    | false => exact htraced.eq_of_key hm hn hmr hnr hkey

variable (hn : (run p files loader).nodes[i]? = some n) (hrequested : n.requested = true)

include hn hrequested in
/-- The dependencies of a requested node are the nodes that its targets lead to. -/
theorem dependencies_eq : n.dependencies =
    (n.action.dependencyTargets.filterMap ((run p files loader).graph.edge? p)).eraseDups := by
  obtain ⟨outside, htraced⟩ := tracedFrom_run p files loader
  have hlt := ((sound_run_start p files loader).requested i n hn).1 hrequested
  obtain ⟨n', hn', -, hdependencies⟩ :=
    (linked_run p files loader).nodes i (List.mem_range.2 hlt)
  cases Option.some.inj (hn.symm.trans hn')
  rwa [htraced.edge?_eq] at hdependencies

include hn hrequested in
/-- Where there is no node for the action that makes a table, a load for its key has failed. -/
theorem exists_failed {t : Target} (ht : t ∈ n.action.dependencyTargets) {d : ActionDescriptor}
    (hd : p.makerOf? t = some d) (hnone : (run p files loader).graph.nodeFor? d.target.key = none) :
    ∃ (k : Nat) (d' : ActionDescriptor) (e : ε), (run p files loader).loads[k]? = some d' ∧
      d'.target.key = d.target.key ∧ loader k d' = .error e := by
  obtain ⟨outside, htraced⟩ := tracedFrom_run p files loader
  have hlt := ((sound_run_start p files loader).requested i n hn).1 hrequested
  obtain ⟨n', hn', hmet, -⟩ := (linked_run p files loader).nodes i (List.mem_range.2 hlt)
  cases Option.some.inj (hn.symm.trans hn')
  rw [← TargetIndex.resolve?_ofProject] at hd
  rw [← htraced.lookup_eq] at hnone
  have hfailed := (hmet t ht d hd).resolve_left (by rw [hnone]; exact nofun)
  exact htraced.traced.failed _ hfailed

include hn hrequested in
/-- Each target that belongs to no action is an issue as often as it is given. -/
theorem count_unresolved (t : Target) :
    (run p files loader).unresolved.count (n.action.fileName, t) =
      if p.makerOf? t = none then n.action.dependencyTargets.count t else 0 := by
  have hsound := sound_run_start p files loader
  have hlinked := linked_run p files loader
  have hlt := (hsound.requested i n hn).1 hrequested
  have hcount := count_missing (.ofProject p) n.action.fileName n.action.dependencyTargets t
  rw [TargetIndex.resolve?_ofProject] at hcount
  rw [hlinked.unresolved, count_flatMap_of_nodup List.nodup_range (List.mem_range.2 hlt), hn,
    ← hcount]
  · rfl
  · -- The files of requested nodes are distinct.
    intro j hj hmem
    obtain ⟨m, hm, -⟩ := hlinked.nodes j hj
    have hfile : m.action.fileName = n.action.fileName := by
      rw [hm] at hmem
      obtain ⟨t', -, he⟩ := List.mem_map.1 hmem
      exact congrArg Prod.fst he
    exact hsound.eq_of_file (nodup_eraseDups files) hm hn
      ((hsound.requested j m hm).2 (List.mem_range.1 hj)) hrequested hfile

end Run

/-- Only targets of requested nodes that belong to no action are issues. -/
theorem exists_of_mem_unresolved {files : List String} {file : String} {t : Target}
    (h : (file, t) ∈ (run p files loader).unresolved) :
    ∃ n ∈ (run p files loader).nodes, n.requested = true ∧ n.action.fileName = file ∧
      t ∈ n.action.dependencyTargets ∧ p.makerOf? t = none := by
  have hlinked := linked_run p files loader
  rw [hlinked.unresolved] at h
  obtain ⟨id, hid, hmem⟩ := List.mem_flatMap.1 h
  obtain ⟨n, hn, -⟩ := hlinked.nodes id hid
  rw [hn] at hmem
  obtain ⟨t', ht', he⟩ := List.mem_map.1 hmem
  cases he
  obtain ⟨ht, hnone⟩ := List.mem_filter.1 ht'
  rw [TargetIndex.resolve?_ofProject, Option.isNone_iff_eq_none] at hnone
  exact ⟨n, List.mem_of_getElem? hn,
    ((sound_run_start p files loader).requested id n hn).2 (List.mem_range.1 hid), rfl, ht, hnone⟩

/-- The dependencies of a requested node and what its targets leave, read off the finished graph. -/
structure Resolved (p : CompiledProject) (loader : Nat → ActionDescriptor → Except ε α)
    (b : GraphBuild α ε) (n : GraphNode α) : Prop where
  dependencies :
    n.dependencies = (n.action.dependencyTargets.filterMap (b.graph.edge? p)).eraseDups
  valid : ∀ id ∈ n.dependencies, id < b.nodes.length
  /-- Where there is no node for the action that makes a table, a load for its key has failed. -/
  dropped : ∀ t ∈ n.action.dependencyTargets, ∀ d, p.makerOf? t = some d →
    b.graph.nodeFor? d.target.key = none →
    ∃ (i : Nat) (d' : ActionDescriptor) (e : ε),
      b.loads[i]? = some d' ∧ d'.target.key = d.target.key ∧ loader i d' = .error e
  /-- Each target that belongs to no action is an issue as often as it is given. -/
  unresolved : ∀ t, b.unresolved.count (n.action.fileName, t) =
    if p.makerOf? t = none then n.action.dependencyTargets.count t else 0

/-- In every graph that is built, the dependencies of requested nodes are resolved exactly: the edge
of a target goes to the node of the action that makes the table, which is the only one for its key
outside the request, and the targets without such an action are the issues. -/
theorem resolved_run (p : CompiledProject) (files : List String)
    (loader : Nat → ActionDescriptor → Except ε α) :
    let b := run p files loader
    (∀ n ∈ b.nodes, n.requested = true → b.Resolved p loader n) ∧
    (∀ (i j : Nat) (m n : GraphNode α), b.nodes[i]? = some m → b.nodes[j]? = some n →
      m.requested = false → n.requested = false →
      m.action.target.key = n.action.target.key → i = j) ∧
    ∀ file t, (file, t) ∈ b.unresolved → ∃ n ∈ b.nodes, n.requested = true ∧
      n.action.fileName = file ∧ t ∈ n.action.dependencyTargets ∧ p.makerOf? t = none := by
  intro b
  refine ⟨fun n hn hrequested => ?_, fun i j m n => ?_, fun _ _ => exists_of_mem_unresolved⟩
  · obtain ⟨id, hid⟩ := List.getElem?_of_mem hn
    have hdependencies := dependencies_eq hid hrequested
    refine ⟨hdependencies, fun k hk => ?_, fun t ht d => exists_failed hid hrequested ht,
      count_unresolved hid hrequested⟩
    rw [hdependencies, List.mem_eraseDups] at hk
    obtain ⟨t, -, ht⟩ := List.mem_filterMap.1 hk
    obtain ⟨d, -, hd⟩ := Option.bind_eq_some_iff.1 ht
    obtain ⟨m, hm, -⟩ := DefinitionGraph.exists_of_nodeFor? hd
    exact (List.getElem?_eq_some_iff.1 hm).1
  · obtain ⟨outside, htraced⟩ := tracedFrom_run p files loader
    exact htraced.eq_of_key

end GraphBuild

end ColumnMetadata
