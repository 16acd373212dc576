import ColumnMetadata.Proofs.Files.Outline
import ColumnMetadata.Proofs.Project.Walking

/-!
# Discovered files stand in different places

The paths of the files that a directory stands for differ in the names at their ends only, and these
names lead down from one place. So no two of them lead to the same place, whatever has become of the
tree (`Configuration.eq_of_locate`). What is discovered depends on the shape of the tree only
(`Configuration.definitionFiles_eq`).
-/

namespace ColumnMetadata.Configuration

/-- The place of a discovered file: its names, below a place that all of them share. -/
theorem exists_of_locate {c : Configuration} {u : FileTree} {relative : String}
    {names place : List String} (hne : names ≠ []) (hnames : ∀ s ∈ names, Path.IsName s)
    (h : u.locate (c.resolve (Path.under relative names)) = .ok place) :
    ∃ base, (u.entrance c.root >>= fun at_ =>
        FileTree.follow u.top at_ ((Path.significant relative).map FileTree.stepOf)) = .ok base ∧
      place = base ++ names := by
  have hempty : Path.join c.root (Path.under relative names) ≠ "" := fun hempty => by
    rw [resolve, hempty] at h
    cases h
  rw [resolve, FileTree.locate_join u c.root (Path.isAbsolute_under hnames relative) hempty,
    Path.segments_under hnames relative hne, List.map_append, FileTree.map_stepOf hnames] at h
  obtain ⟨at_, hroot, h⟩ := bind_eq_ok.1 h
  rw [FileTree.follow_append] at h
  obtain ⟨base, hbase, h⟩ := bind_eq_ok.1 h
  exact ⟨base, bind_eq_ok.2 ⟨at_, hroot, hbase⟩, FileTree.eq_append_of_follow_down h⟩

/-- Discovered files are different only if their places are. -/
theorem eq_of_locate {c : Configuration} {t u : FileTree} (ht : t.top.Proper) {path : String}
    {files : List String} (h : c.definitionFiles t path = .ok files) {f g : String} (hf : f ∈ files)
    (hg : g ∈ files) {place : List String} (hfl : u.locate (c.resolve f) = .ok place)
    (hgl : u.locate (c.resolve g) = .ok place) : f = g := by
  rw [definitionFiles_eq_bind] at h
  obtain ⟨relative, -, h⟩ := bind_eq_ok.1 h
  cases hlocate : t.locate (c.resolve relative) with
  | error e =>
    rw [filesAt, FileTree.node, hlocate] at h
    cases h
  | ok at_ =>
    rw [filesAt_eq ht (FileTree.toOption_node_of_locate hlocate)] at h
    cases hat : t.top.at? at_ with
    | none =>
      rw [hat] at h
      cases h
    | some n =>
      rw [hat] at h
      cases n with
      | file content =>
        cases h
        rw [List.mem_singleton.1 hf, List.mem_singleton.1 hg]
      | directory es =>
        cases h
        obtain ⟨fnames, hfnames, rfl⟩ := List.mem_map.1 hf
        obtain ⟨gnames, hgnames, rfl⟩ := List.mem_map.1 hg
        obtain ⟨hfne, hfvalid⟩ := isName_of_mem_definitionsBelow (ht.at? hat) hfnames
        obtain ⟨hgne, hgvalid⟩ := isName_of_mem_definitionsBelow (ht.at? hat) hgnames
        obtain ⟨base, hbase, hplace⟩ := exists_of_locate hfne hfvalid hfl
        obtain ⟨base', hbase', hplace'⟩ := exists_of_locate hgne hgvalid hgl
        rw [hbase] at hbase'
        cases hbase'
        rw [List.append_cancel_left (hplace.symm.trans hplace')]

/-- In a tree of the same shape the same files are discovered. -/
theorem definitionFiles_eq (c : Configuration) {t u : FileTree} (h : t.SameShape u)
    (path : String) : c.definitionFiles u path = c.definitionFiles t path := by
  unfold definitionFiles
  cases c.inDefinitions path with
  | error e => rfl
  | ok relative =>
    have hnode := h.map_outline_node (c.resolve relative)
    dsimp only [bind, Except.bind]
    cases ht : t.node (c.resolve relative) with
    | error e =>
      cases hu : u.node (c.resolve relative) with
      | error e' => rfl
      | ok n' =>
        rw [ht, hu] at hnode
        cases hnode
    | ok n =>
      cases hu : u.node (c.resolve relative) with
      | error e' =>
        rw [ht, hu] at hnode
        cases hnode
      | ok n' =>
        rw [ht, hu] at hnode
        have houtline : n'.outline = n.outline := Except.ok.inj hnode
        have hnames : (Node.files [] n'.sorted).map Prod.fst =
            (Node.files [] n.sorted).map Prod.fst := by
          rw [← Node.files_outline, ← Node.sorted_outline, houtline, Node.sorted_outline,
            Node.files_outline]
        cases n with
        | file d =>
          cases n' with
          | file d' => rfl
          | directory es' => cases houtline
        | directory es =>
          cases n' with
          | file d' => cases houtline
          | directory es' =>
            dsimp only
            rw [hnames]

end ColumnMetadata.Configuration
