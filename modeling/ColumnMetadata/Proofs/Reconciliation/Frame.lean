import ColumnMetadata.Proofs.Reconciliation.Solution

/-!
# What a run leaves alone

A run that comes to nothing changes no file. A run that comes to an end changes exactly the files
that it reports as updated, in their blocks only (`Reconciliation.run_changes_updated_files_only`).
While the warehouse is asked something else may have put directories in the place of files
(`FileTree.Obstructed`), so that these cannot be replaced, and the system may refuse to replace
others. What a run has changed is told from the tree in which it began to write.
-/

namespace ColumnMetadata

open Node (look)

/-- What was there is still there, except that a directory may stand in the place of a file. -/
structure FileTree.Obstructed (t u : FileTree) : Prop where
  workingDirectory : u.workingDirectory = t.workingDirectory
  directories : ∀ q, look q t.top = some none → look q u.top = some none
  files : ∀ q c, look q t.top = some (some c) →
    look q u.top = some (some c) ∨ look q u.top = some none

theorem FileTree.Obstructed.refl (t : FileTree) : t.Obstructed t :=
  ⟨rfl, fun _ h => h, fun _ _ h => .inl h⟩

theorem FileTree.Obstructed.locate {t u : FileTree} (h : t.Obstructed u) {p : String}
    {names : List String} (hp : t.locate p = .ok names) : u.locate p = .ok names := by
  unfold FileTree.locate at hp ⊢
  split at hp
  · cases hp
  · next hempty =>
    rw [if_neg hempty, h.workingDirectory]
    exact FileTree.follow_mono h.directories hp

/-- An empty directory in the place of a file. -/
theorem FileTree.obstructed_of_file {t : FileTree} {names : List String} {c : Content}
    (hne : names ≠ []) (h : look names t.top = some (some c)) :
    t.Obstructed { t with top := Node.put .empty names t.top } := by
  have hleaf : ∀ q, q ≠ [] → look q Node.empty = none := by
    intro q hq
    cases q with
    | nil => exact absurd rfl hq
    | cons name q => rw [Node.empty, Node.look_cons_directory]; rfl
  have hparent : look names.dropLast t.top = some none :=
    FileTree.look_dropLast hne (by rw [h]; rfl)
  have hput := Node.look_put hleaf hne hparent (by rw [h]; nofun)
  refine ⟨rfl, fun q hq => ?_, fun q d hq => ?_⟩
  · rw [hput]
    split
    · rfl
    · exact hq
  · rw [hput]
    split
    · exact .inr rfl
    · exact .inl hq

namespace Reconciliation

/-- A file was a text with a block, and it differs from that text in its block and nowhere else. -/
def BlockReplaced (u u' : FileTree) (path : String) : Prop :=
  ∃ old new b content, u.readText path = .ok old ∧ u'.readText path = .ok new ∧ new ≠ old ∧
    Block.locate old.toList = .ok (some b) ∧ old.toList = b.before ++ b.content ++ b.after ∧
    new.toList = b.before ++ content ++ b.after

/-- The tree in which a run deals with its files: the one that it was started in, or what has become
of it while the warehouse was asked. -/
def treeBeforeWriting (r : Reconciliation) (meanwhile : FileTree → FileTree) (timestamp : String)
    (t : FileTree) (path : String) (refused : Refusals := fun _ => none) : FileTree :=
  if (r.runAmid meanwhile timestamp t path refused).listings.isEmpty then t else meanwhile t

section Frame

variable {r : Reconciliation} {refused : Refusals} {t u : FileTree} {path : String} {p : Plan}
  {tables : List WarehouseTable} {final : Nat → Columns} {s : FileTree × Report} {report : Report}
  (hmade : p.Made r t path) (hu : t.Obstructed u)
  (h : r.Concluded refused tables p.build.graph final (u, report) p.order s)

include hmade hu h in
/-- An updated file was there before, with the text that was loaded, and it has the new text. -/
theorem Concluded.look_of_updated {id : Nat} {n : GraphNode Definition} {place : List String}
    {new : String} (hn : p.build.graph.node? id = some n)
    (hplace : u.locate (r.configuration.resolve n.action.fileName) = .ok place)
    (hlook : look place s.1.top = some (some (.text new))) :
    look place u.top = some (some (.text n.content.text)) := by
  obtain ⟨place', hplace', hlook'⟩ := FileTree.readText_eq_ok.1 (of_load (hmade.loaded hn)).1
  have hsame := hu.locate hplace'
  rw [hplace] at hsame
  cases hsame
  rcases hu.files _ _ hlook' with hfile | hdirectory
  · exact hfile
  · rw [(h.directories.look _).2 hdirectory] at hlook
    cases hlook

include hmade hu h in
/-- A requested node that was updated has another text in its block. -/
theorem Concluded.blockReplaced {id : Nat} {n : GraphNode Definition} {place : List String}
    {new : String} (hn : p.build.graph.node? id = some n)
    (hnew : rewritten? tables n (final id) = some new) (hchange : new ≠ n.content.text)
    (hplace : u.locate (r.configuration.resolve n.action.fileName) = .ok place)
    (hlook : look place s.1.top = some (some (.text new))) :
    BlockReplaced u s.1 (r.configuration.resolve n.action.fileName) := by
  obtain ⟨b, -, hblock, -, rfl⟩ := rewritten?_eq_some.1 hnew
  obtain ⟨-, hlocated, -⟩ := Definition.parse_block (of_load (hmade.loaded hn)).2 hblock
  refine ⟨n.content.text, _, b, (n.content.withColumns (final id)).metadata.render,
    FileTree.readText_eq_ok.2 ⟨place, hplace, h.look_of_updated hmade hu hn hplace hlook⟩,
    FileTree.readText_eq_ok.2 ⟨place, h.directories.locate hplace, hlook⟩, hchange, hlocated,
    (Block.text_of_locate hlocated).symm, String.toList_ofList⟩

variable (hreport : ∀ o ∈ report.files, o.status ≠ .updated)

include hmade h hreport in
/-- An updated outcome is that of a requested node whose new text was written. -/
theorem Concluded.exists_updated {o : FileOutcome} (ho : o ∈ s.2.files)
    (hstatus : o.status = .updated) :
    ∃ id n new place, p.build.graph.node? id = some n ∧ n.requested = true ∧
      o.file = n.action.fileName ∧ rewritten? tables n (final id) = some new ∧
      new ≠ n.content.text ∧
      u.locate (r.configuration.resolve n.action.fileName) = .ok place ∧
      look place s.1.top = some (some (.text new)) := by
  rcases h.mem_files ho with ho | ⟨id, hid, hends⟩
  · exact absurd hstatus (hreport o ho)
  · obtain ⟨n, hn, hrequested⟩ := hmade.exists_node hid
    cases hends with
    | updated hn' hnew hchange hplace _ hlook =>
      rw [hn] at hn'
      cases hn'
      exact ⟨id, n, _, _, hn, hrequested, rfl, hnew, hchange, hplace, hlook⟩
    | _ => cases hstatus

include hmade hu h hreport in
/-- At the place of an updated file its old text stood before, and another one stands now. -/
theorem Concluded.texts_of_updated {o : FileOutcome} (ho : o ∈ s.2.files)
    (hstatus : o.status = .updated) {q : List String}
    (hq : u.locate (r.configuration.resolve o.file) = .ok q) :
    ∃ old new : String, new ≠ old ∧ look q u.top = some (some (.text old)) ∧
      look q s.1.top = some (some (.text new)) := by
  obtain ⟨id, n, new, place, hn, -, hfile, -, hchange, hplace, hlook⟩ :=
    h.exists_updated hmade hreport ho hstatus
  rw [hfile, hplace] at hq
  cases hq
  exact ⟨_, new, hchange, h.look_of_updated hmade hu hn hplace hlook, hlook⟩

include hmade hu h hreport in
/-- The places with another text are those of the updated files. -/
theorem Concluded.look_ne_iff (q : List String) :
    look q s.1.top ≠ look q u.top ↔ ∃ o ∈ s.2.files, o.status = .updated ∧
      u.locate (r.configuration.resolve o.file) = .ok q := by
  constructor
  · intro hq
    obtain ⟨id, -, ⟨n, hn, hplace⟩, o, ho, hstatus, hends⟩ := h.changed q hq
    cases hends with
    | updated hn' _ _ _ _ _ =>
      rw [hn] at hn'
      cases hn'
      exact ⟨_, ho, rfl, hplace⟩
    | _ => cases hstatus
  · rintro ⟨o, ho, hstatus, hq⟩ he
    obtain ⟨old, new, hne, hold, hnew⟩ := h.texts_of_updated hmade hu hreport ho hstatus hq
    rw [hold, hnew] at he
    cases he
    exact hne rfl

include hmade hu h hreport in
/-- Nothing is added, and nothing is removed. -/
theorem Concluded.isSome_look (q : List String) :
    (look q s.1.top).isSome = (look q u.top).isSome := by
  by_cases hq : look q s.1.top = look q u.top
  · rw [hq]
  · obtain ⟨o, ho, hstatus, hplace⟩ := (h.look_ne_iff hmade hu hreport q).1 hq
    obtain ⟨old, new, -, hold, hnew⟩ := h.texts_of_updated hmade hu hreport ho hstatus hplace
    rw [hold, hnew]
    rfl

end Frame

/-- A run that comes to nothing leaves the tree alone. A run that comes to an end adds and removes
nothing, and it changes what stands at a place exactly if the place is that of a file that is
reported as updated. Each such file was discovered, and outside its block it is as it was. -/
theorem run_changes_updated_files_only {r : Reconciliation} {meanwhile : FileTree → FileTree}
    {refused : Refusals} {timestamp path : String} {t : FileTree} (ht : t.top.Proper)
    (hmeanwhile : t.Obstructed (meanwhile t)) :
    (∀ e, (r.runAmid meanwhile timestamp t path refused).result = .error e →
      (r.runAmid meanwhile timestamp t path refused).tree =
        r.treeBeforeWriting meanwhile timestamp t path refused) ∧
    ∀ m, (r.runAmid meanwhile timestamp t path refused).result = .ok m →
      (∀ q, (look q (r.runAmid meanwhile timestamp t path refused).tree.top).isSome =
        (look q (r.treeBeforeWriting meanwhile timestamp t path refused).top).isSome) ∧
      (∀ q, look q (r.runAmid meanwhile timestamp t path refused).tree.top ≠
          look q (r.treeBeforeWriting meanwhile timestamp t path refused).top ↔
        ∃ o ∈ m.report.files, o.status = .updated ∧
          (r.treeBeforeWriting meanwhile timestamp t path refused).locate
            (r.configuration.resolve o.file) = .ok q) ∧
      ∀ o ∈ m.report.files, o.status = .updated →
        (∃ files, r.configuration.definitionFiles t path = .ok files ∧ o.file ∈ files) ∧
        BlockReplaced (r.treeBeforeWriting meanwhile timestamp t path refused)
          (r.runAmid meanwhile timestamp t path refused).tree (r.configuration.resolve o.file) := by
  refine ⟨fun e he => ?_, fun m hm => ?_⟩
  · obtain ⟨listings, hrun⟩ := runAmid_eq_error he
    rw [treeBeforeWriting, hrun]
  · obtain ⟨p, tables, report, -, hmade, hlisted, htree, hlistings, -, h⟩ := of_runAmid_eq_ok ht hm
    have hu : t.Obstructed (r.treeBeforeWriting meanwhile timestamp t path refused) := by
      unfold treeBeforeWriting
      split
      · exact .refl t
      · exact hmeanwhile
    have hbefore : (if p.datasets.isEmpty then t else meanwhile t) =
        r.treeBeforeWriting meanwhile timestamp t path refused := by
      rw [treeBeforeWriting, hlistings]
    rw [hbefore] at h
    rw [htree]
    have hreport : ∀ o ∈ report.files, o.status ≠ .updated := fun o ho =>
      Plan.status_of_report (files_of_collectListings hlisted ▸ ho)
    refine ⟨h.isSome_look hmade hu hreport, h.look_ne_iff hmade hu hreport,
      fun o ho hstatus => ?_⟩
    obtain ⟨id, n, new, place, hn, hrequested, hfile, hnew, hchange, hplace, hlook⟩ :=
      h.exists_updated hmade hreport ho hstatus
    rw [hfile]
    exact ⟨⟨p.files, hmade.files, hmade.mem_files hn hrequested⟩,
      h.blockReplaced hmade hu hn hnew hchange hplace hlook⟩

/-- One file is updated, and in the place of the other one stands a directory. -/
theorem run_changes_updated_files_only_sample :
    sampleTree.top.Proper ∧ sampleTree.Obstructed (sampleObstruction sampleTree) ∧
    ∃ m, (sample.runAmid sampleObstruction "now" sampleTree "definitions").result = .ok m ∧
      m.report.files = [⟨"definitions/b.sqlx", .failed, some "WRITE_FAILED"⟩,
        ⟨"definitions/a.sqlx", .updated, none⟩] ∧
      ∀ q, look q (sample.runAmid sampleObstruction "now" sampleTree "definitions").tree.top ≠
          look q (sample.treeBeforeWriting sampleObstruction "now" sampleTree "definitions").top ↔
        ∃ o ∈ m.report.files, o.status = .updated ∧
          (sample.treeBeforeWriting sampleObstruction "now" sampleTree "definitions").locate
            (sample.configuration.resolve o.file) = .ok q := by
  have hobstructed : sampleTree.Obstructed (sampleObstruction sampleTree) :=
    FileTree.obstructed_of_file (List.cons_ne_nil _ _) rfl
  obtain ⟨m, hm, hfiles⟩ : ∃ m,
      (sample.runAmid sampleObstruction "now" sampleTree "definitions").result = .ok m ∧
      decide (m.report.files = [⟨"definitions/b.sqlx", .failed, some "WRITE_FAILED"⟩,
        ⟨"definitions/a.sqlx", .updated, none⟩]) = true := exists_ok_of_any (by decide +kernel)
  exact ⟨proper_sampleTree, hobstructed, m, hm, of_decide_eq_true hfiles,
    ((run_changes_updated_files_only proper_sampleTree hobstructed).2 m hm).2.1⟩

end Reconciliation

end ColumnMetadata
