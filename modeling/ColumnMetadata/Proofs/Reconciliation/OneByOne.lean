import ColumnMetadata.Proofs.Reconciliation.Separate

/-!
# Files reconciled one by one

A run for one file, behind the runs for those that it depends on, sees what the run for all files
has in memory (`Reconciliation.Halfway.meaning_eq`) and leaves in the file what that run leaves
there (`Reconciliation.Halfway.step`). So it comes to the same to reconcile all files in one run or
each in a run of its own (`Reconciliation.separate_runs_agree`).
-/

namespace ColumnMetadata

open Node (look)

/-- At each place stands the same in both trees, or definition files stand there that are alike. -/
def FileTree.Alike (t u : FileTree) : Prop :=
  ∀ q, look q t.top = look q u.top ∨ ∃ text text' d d',
    look q t.top = some (some (.text text)) ∧ look q u.top = some (some (.text text')) ∧
    Definition.parse text = .ok d ∧ Definition.parse text' = .ok d' ∧ d.Alike d'

/-- One file reads the table of another one, and both were asked for. -/
def DefinitionGraph.FileDependsOn {α : Type} (g : DefinitionGraph α) (f f' : String) : Prop :=
  ∃ id d, g.DependsOn id d ∧ g.file id = f ∧ g.file d = f'

namespace Reconciliation

variable {r : Reconciliation} {t u : FileTree} {compiled : CompiledProject} {path : String}
  {p : Plan} {tables : List WarehouseTable} {final : Nat → Columns}

/-! ## One run -/

/-- What the columns that are loaded for an action say. -/
def loadedMeaning (r : Reconciliation) (t : FileTree) (a : ActionDescriptor) :
    Entries Column.Meaning :=
  match r.load t a with
  | .ok d => d.columns.meaning
  | .error _ => []

theorem loadedMeaning_of_load {a : ActionDescriptor} {d : Definition} (h : r.load t a = .ok d) :
    r.loadedMeaning t a = d.columns.meaning := by
  unfold loadedMeaning
  rw [h]

section Step

variable (hb : r.Batch t compiled path p tables final) {done : List String}
  (h : Halfway r t p final done u) {f : String} (hf : f ∈ p.files) (hnew : f ∉ done)
  (hcompile : r.compiler.compile u = .ok compiled) {p' : Plan} {tables' : List WarehouseTable}
  {final' : Nat → Columns} {s : FileTree × Report} (hs : r.Single u p f p' tables' final' s)

include hcompile hs in
theorem Single.build_eq : p'.build = r.build u compiled [f] := by
  obtain ⟨_, hmade⟩ := hs.made
  rw [build_of_made hmade hcompile, hs.files]

include hb h hcompile hs in
theorem Halfway.regular : r.Regular u p' final' := by
  obtain ⟨_, hmade⟩ := hs.made
  refine regular_of_wellFormed hcompile hmade (hb.proper.of_outline h.shape.outline) hs.solves
    hb.separable.definitions (fun a ha b hb' place => ?_) fun id n hn => ?_
  · rw [h.shape.locate_eq, h.shape.locate_eq]
    exact hb.separable.places a ha b hb' place
  · exact h.wellFormed hb ((drawn_of_made hcompile hmade).mem_actions (List.mem_of_getElem? hn))
      (hmade.loaded hn)

include hb h hf hnew hcompile hs in
/-- The node of the file, and the one that the run for all files has for it. -/
theorem Halfway.exists_pair {id' : Nat} {n' : GraphNode Definition}
    (hn' : p'.build.graph.node? id' = some n') (hrequested' : n'.requested = true) :
    n'.action.fileName = f ∧ ∃ id n, p.build.graph.node? id = some n ∧ n.requested = true ∧
      n.action = n'.action ∧ n.content = n'.content := by
  obtain ⟨_, hmade⟩ := hs.made
  have hload := hmade.loaded hn'
  rw [hs.build_eq hcompile] at hn'
  obtain ⟨hfile, id, n, hn, hrequested, haction⟩ := h.exists_node hb hf hn' hrequested'
  refine ⟨hfile, id, n, hn, hrequested, haction, ?_⟩
  rw [← haction, h.load_of_not_mem hb hn (by rw [haction, hfile]; exact hnew)] at hload
  exact Except.ok.inj hload

variable (hbehind : ∀ id n d m, p.build.graph.node? id = some n → n.requested = true →
  n.action.fileName = f → d ∈ n.dependencies → p.build.graph.node? d = some m →
  m.requested = true → m.action.fileName ∈ done)

include hb h hbehind in
/-- What the run for all files has in memory for the dependencies of a file, their files say. -/
theorem Halfway.map_meaning {id : Nat} {n : GraphNode Definition}
    (hn : p.build.graph.node? id = some n) (hrequested : n.requested = true)
    (hfile : n.action.fileName = f) :
    (n.dependencies.map fun d => (final d).meaning) =
      (compiled.reads (r.load t) n.action).map (r.loadedMeaning u) := by
  refine map_eq_map_of_map_eq (hb.map_action?_dependencies hn hrequested) fun d hd a _ ha => ?_
  obtain ⟨m, hm, rfl⟩ := Option.map_eq_some_iff.1 ha
  obtain ⟨x, hload, hcompleted⟩ := h.loaded d m hm (hbehind id n d m hn hrequested hfile hd hm)
  rw [loadedMeaning_of_load hload, ← hcompleted.meaning]

include hb h hf hcompile hs in
/-- A run for the file alone does not ask for its dependencies, so it takes them as they are. -/
theorem Halfway.map_meaning_single {id' : Nat} {n' : GraphNode Definition}
    (hn' : p'.build.graph.node? id' = some n') (hrequested' : n'.requested = true) :
    (n'.dependencies.map fun d => (final' d).meaning) =
      (compiled.reads (r.load u) n'.action).map (r.loadedMeaning u) := by
  obtain ⟨_, hmade⟩ := hs.made
  have hbuild := hs.build_eq hcompile
  have hdependencies : n'.dependencies.map p'.build.action? =
      (compiled.reads (r.load u) n'.action).map some := by
    rw [hbuild] at hn' ⊢
    exact GraphBuild.map_action?_dependencies hb.separable.keys [f] hn' hrequested'
  refine map_eq_map_of_map_eq hdependencies fun d hd a _ ha => ?_
  obtain ⟨m, hm, rfl⟩ := Option.map_eq_some_iff.1 ha
  have hout : m.requested ≠ true := by
    intro hmr
    rw [hbuild] at hn' hm
    -- Both nodes are that of the file, so it would depend on itself.
    obtain rfl := eq_of_build hn' hrequested' hm hmr
    exact h.acyclic hb hf id' (.single (DefinitionGraph.dependsOn_iff_exists.2
      ⟨n', m, hn', hrequested', hm, hmr, hd⟩))
  rw [hs.solves.eq_content hm fun hmr => absurd hmr hout,
    loadedMeaning_of_load (hmade.loaded hm)]

include hb h hf hnew hcompile hs hbehind in
/-- The columns of the file come to say the same in both runs. -/
theorem Halfway.meaning_eq {id id' : Nat} {n n' : GraphNode Definition}
    (hn : p.build.graph.node? id = some n) (hrequested : n.requested = true)
    (hn' : p'.build.graph.node? id' = some n') (hrequested' : n'.requested = true)
    (haction : n.action = n'.action) (hcontent : n.content = n'.content) :
    (final' id').meaning = (final id).meaning := by
  obtain ⟨_, hmade⟩ := hs.made
  have hfile := (h.exists_pair hb hf hnew hcompile hs hn' hrequested').1
  rw [hb.solves.eq_merged hn, hs.solves.eq_merged hn']
  refine r.meaning_merged hcontent.symm (hrequested'.trans hrequested.symm) ?_ ?_
  · obtain ⟨_, _, hlisted⟩ := hb.listed
    obtain ⟨_, _, hlisted'⟩ := hs.listed
    rw [findTable?_of_collectListings hlisted' hb.separable.ownTables (nodup_eraseDups _)
        (Reconciliation.mem_datasets (hmade.mem_order hn' hrequested') hn'),
      findTable?_of_collectListings hlisted hb.separable.ownTables (nodup_eraseDups _)
        (Reconciliation.mem_datasets (hb.made.mem_order hn hrequested) hn), hs.project, haction]
  · rw [h.map_meaning_single hb hf hcompile hs hn' hrequested', h.reads_eq hb, ← haction]
    exact (h.map_meaning hb hbehind hn hrequested (by rw [haction, hfile])).symm

include hb h hf hnew hcompile hs in
/-- A place that the run for one file has changed is that of the file. -/
theorem Halfway.changed_single {q : List String} (hq : look q s.1.top ≠ look q u.top) :
    ∃ id n, p.build.graph.node? id = some n ∧ n.requested = true ∧ n.action.fileName = f ∧
      n.content.block.isSome = true ∧
      t.locate (r.configuration.resolve n.action.fileName) = .ok q := by
  obtain ⟨_, hmade⟩ := hs.made
  obtain ⟨_, hconcluded⟩ := hs.concluded
  obtain ⟨_, n', hn', hrequested', hblock, hplace⟩ := hconcluded.exists_changed hmade hq
  obtain ⟨hfile, id, n, hn, hrequested, haction, hcontent⟩ :=
    h.exists_pair hb hf hnew hcompile hs hn' hrequested'
  rw [← haction] at hfile hplace
  rw [← hcontent] at hblock
  rw [h.shape.locate_eq] at hplace
  exact ⟨id, n, hn, hrequested, hfile, hblock, hplace⟩

include hb hf in
/-- A node whose file was asked for is a requested one. -/
theorem Batch.requested_of_mem {id : Nat} {n : GraphNode Definition}
    (hn : p.build.graph.node? id = some n) (hfile : n.action.fileName = f) :
    n.requested = true := by
  have hfind : (compiled.actionOf? f).isSome = true := by
    rw [CompiledProject.actionOf?, List.find?_isSome]
    exact ⟨n.action, hb.mem_actions hn, beq_iff_eq.2 hfile⟩
  obtain ⟨a, ha⟩ := Option.isSome_iff_exists.1 hfind
  have hname := (GraphBuild.mem_of_actionOf? ha).trans hfile.symm
  have hload : (r.load t a).isOk = true := by
    rw [load_congr hname, hb.made.loaded hn]
    rfl
  obtain ⟨j, m, hm, hrequested, haction⟩ := exists_node_of_made hb.made hb.compile hf ha hload
  refine hb.drawn.requested_of_file hb.separable.definitions (List.mem_of_getElem? hm)
    (List.mem_of_getElem? hn) hrequested ?_
  rw [haction, hname]

include hb h hf hnew hcompile hs hbehind in
/-- After the run for one file the file says what the run for all files has come to. -/
theorem Halfway.loaded_single {id : Nat} {n : GraphNode Definition}
    (hn : p.build.graph.node? id = some n) (hfile : n.action.fileName = f) :
    ∃ d, r.load s.1 n.action = .ok d ∧ n.content.Completed (final id) d := by
  obtain ⟨_, hmade⟩ := hs.made
  obtain ⟨_, hconcluded⟩ := hs.concluded
  have hrequested := hb.requested_of_mem hf hn hfile
  have haction := hb.drawn.requested n (List.mem_of_getElem? hn) hrequested
  rw [hfile] at haction
  -- The run for the file has a node for it too.
  have hnode : p'.build.Requests n.action := by
    rw [hs.build_eq hcompile]
    exact GraphBuild.requests_run (List.mem_singleton_self f) haction fun _ =>
      h.load_of_not_mem hb hn (hfile ▸ hnew)
  obtain ⟨n', hmem, hrequested', haction'⟩ := hnode
  obtain ⟨id', hn'⟩ := List.getElem?_of_mem hmem
  have hcontent : n.content = n'.content := by
    have hload := hmade.loaded hn'
    rw [haction', h.load_of_not_mem hb hn (hfile ▸ hnew)] at hload
    exact Except.ok.inj hload
  have hregular := h.regular hb hcompile hs
  obtain ⟨d, hload, hreread⟩ := hconcluded.reread hmade hregular hn'
  have hcompleted := hreread.completed (hregular.metadata id' n' hn') (hregular.final id')
    (hs.solves.eq_content hn')
  rw [haction'] at hload
  rw [← hcontent] at hcompleted
  exact ⟨d, hload, hcompleted.congr
    (h.meaning_eq hb hf hnew hcompile hs hbehind hn hrequested hn' hrequested' haction'.symm
      hcontent)⟩

include hb h hf hnew hcompile hs hbehind in
theorem Halfway.step : Halfway r t p final (done ++ [f]) s.1 where
  shape := by
    obtain ⟨_, hmade⟩ := hs.made
    obtain ⟨_, hconcluded⟩ := hs.concluded
    exact h.shape.trans (hconcluded.sameShape hmade)
  changed q hq := by
    by_cases hsingle : look q s.1.top = look q u.top
    · rw [hsingle] at hq
      obtain ⟨id, n, hn, hrequested, hdone, hrest⟩ := h.changed q hq
      exact ⟨id, n, hn, hrequested, List.mem_append_left _ hdone, hrest⟩
    · obtain ⟨id, n, hn, hrequested, hfile, hrest⟩ :=
        h.changed_single hb hf hnew hcompile hs hsingle
      exact ⟨id, n, hn, hrequested, List.mem_append_right _ (List.mem_singleton.2 hfile), hrest⟩
  loaded id n hn hdone := by
    by_cases hfile : n.action.fileName = f
    · exact h.loaded_single hb hf hnew hcompile hs hbehind hn hfile
    · obtain ⟨_, hmade⟩ := hs.made
      obtain ⟨_, hconcluded⟩ := hs.concluded
      -- The run for the file has not touched the file of another node.
      have hsame : r.load s.1 n.action = r.load u n.action := by
        refine load_eq (hconcluded.sameShape hmade) fun q hq => Decidable.byContradiction
          fun hchanged => hfile ?_
        obtain ⟨j, m, hm, -, hmfile, -, hplace⟩ :=
          h.changed_single hb hf hnew hcompile hs hchanged
        rw [h.shape.locate_eq] at hq
        rw [← hmfile]
        exact hb.separable.places _ (hb.mem_actions hn) _ (hb.mem_actions hm) q hq hplace
      rw [hsame]
      refine h.loaded id n hn fun hrequested => ?_
      rcases List.mem_append.1 (hdone hrequested) with hmem | hlast
      · exact hmem
      · exact absurd (List.mem_singleton.1 hlast) hfile

end Step

/-! ## All runs -/

/-- What is loaded from a file stands at its place. -/
theorem look_of_load (hshape : t.SameShape u) {a : ActionDescriptor} {d : Definition}
    (hload : r.load u a = .ok d) {q : List String}
    (hq : t.locate (r.configuration.resolve a.fileName) = .ok q) :
    look q u.top = some (some (.text d.text)) ∧ Definition.parse d.text = .ok d := by
  obtain ⟨htext, hparse⟩ := of_load hload
  obtain ⟨place, hplace, hlook⟩ := FileTree.readText_eq_ok.1 htext
  rw [hshape.locate_eq, hq] at hplace
  cases hplace
  exact ⟨hlook, hparse⟩

section Finish

variable (hb : r.Batch t compiled path p tables final)

include hb in
/-- After the run for all files there is nothing left to be done. -/
theorem Batch.halfway {s : FileTree × Report} {report : Report}
    (h : r.Concluded (fun _ => none) tables p.build.graph final (t, report) p.order s) :
    Halfway r t p final p.files s.1 where
  shape := h.sameShape hb.made
  changed q hq := by
    obtain ⟨id, n, hn, hrequested, hblock, hplace⟩ := h.exists_changed hb.made hq
    exact ⟨id, n, hn, hrequested, hb.made.mem_files hn hrequested, hblock, hplace⟩
  loaded id n hn _ := by
    obtain ⟨d, hload, hreread⟩ := h.reread hb.made hb.regular hn
    exact ⟨d, hload, hreread.completed (hb.regular.metadata id n hn) (hb.regular.final id)
      (hb.solves.eq_content hn)⟩

include hb in
/-- Two trees in which nothing is left to be done are alike. -/
theorem Halfway.alike {done done' : List String} {u' : FileTree} (h : Halfway r t p final done u)
    (h' : Halfway r t p final done' u') (hdone : ∀ f ∈ p.files, f ∈ done)
    (hdone' : ∀ f ∈ p.files, f ∈ done') : u.Alike u' := by
  intro q
  by_cases hsame : look q u.top = look q t.top ∧ look q u'.top = look q t.top
  · exact .inl (hsame.1.trans hsame.2.symm)
  · obtain ⟨id, n, hn, hrequested, hblock, hplace⟩ : ∃ id n, p.build.graph.node? id = some n ∧
        n.requested = true ∧ n.content.block.isSome = true ∧
        t.locate (r.configuration.resolve n.action.fileName) = .ok q := by
      rcases Classical.not_and_iff_not_or_not.1 hsame with hq | hq
      · obtain ⟨id, n, hn, hrequested, -, hrest⟩ := h.changed q hq
        exact ⟨id, n, hn, hrequested, hrest⟩
      · obtain ⟨id, n, hn, hrequested, -, hrest⟩ := h'.changed q hq
        exact ⟨id, n, hn, hrequested, hrest⟩
    have hmem := hb.made.mem_files hn hrequested
    obtain ⟨d, hload, hcompleted⟩ := h.loaded id n hn fun _ => hdone _ hmem
    obtain ⟨d', hload', hcompleted'⟩ := h'.loaded id n hn fun _ => hdone' _ hmem
    obtain ⟨hlook, hparse⟩ := look_of_load h.shape hload hplace
    obtain ⟨hlook', hparse'⟩ := look_of_load h'.shape hload' hplace
    exact .inr ⟨d.text, d'.text, d, d', hlook, hlook', hparse, hparse',
      hcompleted.alike hcompleted' hblock⟩

end Finish

/-- The tree that runs for one file after the other leave. -/
def runEach (r : Reconciliation) (later pathOf : String → String) (t : FileTree)
    (fs : List String) : FileTree :=
  fs.foldl (fun u f => (r.run (later f) u (pathOf f)).tree) t

theorem runEach_concat (r : Reconciliation) (later pathOf : String → String) (t : FileTree)
    (fs : List String) (f : String) : r.runEach later pathOf t (fs ++ [f]) =
      (r.run (later f) (r.runEach later pathOf t fs) (pathOf f)).tree := by
  rw [runEach, List.foldl_append]
  rfl

section Runs

variable (hb : r.Batch t compiled path p tables final) {later pathOf : String → String}
  {fs : List String} (hfs : ∀ f, f ∈ fs ↔ f ∈ p.files)
  (hpaths : ∀ f ∈ fs, r.configuration.definitionFiles t (pathOf f) = .ok [f])
  (horder : fs.Pairwise fun f f' => ¬p.build.graph.FileDependsOn f f')
  (hcompiles : ∀ before f after, fs = before ++ f :: after →
    r.compiler.compile (r.runEach later pathOf t before) = .ok compiled)

include hb hfs horder in
/-- In the order of the runs the files that a file depends on come before it. -/
theorem Batch.mem_before {before after : List String} {f : String} (he : fs = before ++ f :: after)
    {id d : Nat} {n m : GraphNode Definition} (hn : p.build.graph.node? id = some n)
    (hnr : n.requested = true) (hfile : n.action.fileName = f) (hd : d ∈ n.dependencies)
    (hm : p.build.graph.node? d = some m) (hmr : m.requested = true) :
    m.action.fileName ∈ before := by
  have hedge : p.build.graph.DependsOn id d :=
    DefinitionGraph.dependsOn_iff_exists.2 ⟨n, m, hn, hnr, hm, hmr, hd⟩
  have hdepends : p.build.graph.FileDependsOn f m.action.fileName := by
    refine ⟨id, d, hedge, ?_, ?_⟩
    · rw [DefinitionGraph.file, hn, ← hfile]
      rfl
    · rw [DefinitionGraph.file, hm]
      rfl
  have hmem := (hfs _).2 (hb.made.mem_files hm hmr)
  rw [he] at hmem horder
  rcases List.mem_append.1 hmem with hmem | hmem
  · exact hmem
  · rcases List.mem_cons.1 hmem with hsame | hmem
    · obtain rfl := hb.made.eq_of_fileName hn hnr hm hmr (hfile.trans hsame.symm)
      exact absurd (.single hedge) (DefinitionGraph.exists_order_iff.1 ⟨_, hb.made.order⟩ id)
    · have hlater := (List.pairwise_cons.1 (List.pairwise_append.1 horder).2.1).1
      exact absurd hdepends (hlater _ hmem)

include hb hfs hpaths horder hcompiles in
theorem Batch.next (hnodup : fs.Nodup) {before after : List String} {f : String}
    (he : fs = before ++ f :: after)
    (h : Halfway r t p final before (r.runEach later pathOf t before)) :
    (∃ m', (r.run (later f) (r.runEach later pathOf t before) (pathOf f)).result = .ok m') ∧
      Halfway r t p final (before ++ [f]) (r.runEach later pathOf t (before ++ [f])) := by
  have hmem : f ∈ fs := he ▸ List.mem_append_right _ List.mem_cons_self
  have hnew : f ∉ before := by
    rw [he] at hnodup
    exact fun hbefore => (List.nodup_append.1 hnodup).2.2 f hbefore f List.mem_cons_self rfl
  obtain ⟨m', hm', htree, p', tables', hsingle⟩ :=
    h.exists_run hb ((hfs f).1 hmem) (hcompiles before f after he) (hpaths f hmem) (later f)
  refine ⟨⟨m', hm'⟩, ?_⟩
  rw [runEach_concat, htree]
  exact h.step hb ((hfs f).1 hmem) hnew (hcompiles before f after he) hsingle
    fun id n d m hn hnr hfile hd hm hmr => hb.mem_before hfs horder he hn hnr hfile hd hm hmr

include hb hfs hpaths horder hcompiles in
theorem Batch.halfway_runEach (hnodup : fs.Nodup) (before after : List String)
    (he : fs = before ++ after) :
    Halfway r t p final before (r.runEach later pathOf t before) := by
  induction before using List.reverseRecOn generalizing after with
  | nil => exact .start hb
  | append_singleton before f ih =>
    rw [List.append_assoc] at he
    exact (hb.next hfs hpaths horder hcompiles hnodup he (ih (f :: after) he)).2

end Runs

/-- When a run for files comes to an end, so do runs for each of the files alone, in any order in
which a file comes behind those that it depends on, and they leave the same: what stands at a place
is the same, or definition files stand there with the same text outside their blocks, the same
fields, and equal columns in the same order. -/
theorem separate_runs_agree {timestamp : String} {later pathOf : String → String} {m : Merging}
    {files fs : List String} (ht : t.top.Proper) (hseparable : r.Separable t compiled)
    (hcompile : r.compiler.compile t = .ok compiled)
    (hfiles : r.configuration.definitionFiles t path = .ok files)
    (h : (r.run timestamp t path).result = .ok m)
    (hnodup : fs.Nodup) (hfs : ∀ f, f ∈ fs ↔ f ∈ files)
    (hpaths : ∀ f ∈ fs, r.configuration.definitionFiles t (pathOf f) = .ok [f])
    (horder : fs.Pairwise fun f f' => ¬(r.build t compiled files).graph.FileDependsOn f f')
    (hcompiles : ∀ before f after, fs = before ++ f :: after →
      r.compiler.compile (r.runEach later pathOf t before) = .ok compiled) :
    (∀ before f after, fs = before ++ f :: after →
      ∃ m', (r.run (later f) (r.runEach later pathOf t before) (pathOf f)).result = .ok m') ∧
      (r.run timestamp t path).tree.Alike (r.runEach later pathOf t fs) := by
  unfold run at h
  obtain ⟨p, tables, report, -, hmade, hlisted, htree, -, hprogress, hconcluded⟩ :=
    of_runAmid_eq_ok ht h
  rw [id_eq, ite_self] at hconcluded
  have hsame := hmade.files
  rw [hfiles] at hsame
  cases hsame
  rw [← build_of_made hmade hcompile] at horder
  have hb : r.Batch t compiled path p tables m.graph.columns :=
    ⟨ht, hseparable, hcompile, hmade, ⟨_, _, hlisted⟩, hprogress.solves hmade.ordering⟩
  have hhalfway := hb.halfway_runEach hfs hpaths horder hcompiles hnodup
  refine ⟨fun before f after he => ?_, ?_⟩
  · exact (hb.next hfs hpaths horder hcompiles hnodup he (hhalfway before (f :: after) he)).1
  · rw [run, htree]
    exact (hb.halfway hconcluded).alike hb (hhalfway fs [] (List.append_nil fs).symm)
      (fun _ hf => hf) fun f hf => (hfs f).2 hf

/-- The second file first, since the first one is made from it. -/
theorem separate_runs_agree_sample :
    sampleTree.top.Proper ∧ sample.Separable sampleTree sampleProject ∧
    sample.configuration.definitionFiles sampleTree "definitions" =
      .ok ["definitions/a.sqlx", "definitions/b.sqlx"] ∧
    ∃ m, (sample.run "now" sampleTree "definitions").result = .ok m ∧
      (sample.run "now" sampleTree "definitions").tree.Alike
        (sample.runEach (fun _ => "later") id sampleTree
          ["definitions/b.sqlx", "definitions/a.sqlx"]) := by
  obtain ⟨m, hm, -⟩ : ∃ m, (sample.run "now" sampleTree "definitions").result = .ok m ∧
      decide (m.report.files.length = 2) = true := exists_ok_of_any (by decide +kernel)
  have hfiles : sample.configuration.definitionFiles sampleTree "definitions" =
      .ok ["definitions/a.sqlx", "definitions/b.sqlx"] := by decide +kernel
  have hpaths : ∀ f ∈ ["definitions/b.sqlx", "definitions/a.sqlx"],
      sample.configuration.definitionFiles sampleTree (id f) = .ok [f] := by decide +kernel
  have hdepends : ∀ id ∈ (sample.build sampleTree sampleProject
      ["definitions/a.sqlx", "definitions/b.sqlx"]).graph.requested,
      ∀ d ∈ (sample.build sampleTree sampleProject
        ["definitions/a.sqlx", "definitions/b.sqlx"]).graph.dependencies id,
      (sample.build sampleTree sampleProject
        ["definitions/a.sqlx", "definitions/b.sqlx"]).graph.file id ≠ "definitions/b.sqlx" := by
    decide +kernel
  refine ⟨proper_sampleTree, separable_sample, hfiles, m, hm, ?_⟩
  refine (separate_runs_agree proper_sampleTree separable_sample rfl hfiles hm (by decide) (fun f => ?_)
    hpaths ?_ fun _ _ _ _ => rfl).2
  · exact (List.Perm.swap "definitions/a.sqlx" "definitions/b.sqlx" []).mem_iff
  · refine List.pairwise_pair.2 ?_
    rintro ⟨id, d, ⟨hid, -, hd⟩, hfile, -⟩
    exact hdepends id hid d hd hfile

end Reconciliation

end ColumnMetadata
