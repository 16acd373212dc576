import ColumnMetadata.Project.Discovery
import ColumnMetadata.Proofs.Files.Following
import ColumnMetadata.Proofs.Files.Sorted
import ColumnMetadata.Proofs.Text.ByteOrder

/-!
# What a directory stands for

A path that leads to a directory stands for the files below it with the configured extension
(`IsDefinitionBelow`), listed in the order of the names on the way (`mem_definitionsBelow`,
`pairwise_definitionsBelow`). So what a path stands for depends on the place that it leads to and on
its segments that count (`filesAt_eq`), and the names of a file behind these lead to the file
(`locate_under`).
-/

namespace ColumnMetadata.Configuration

open Node (look)

/-- The files that a path in the definitions directory stands for. -/
def filesAt (c : Configuration) (t : FileTree) (relative : String) :
    Except DiscoveryError (List String) :=
  match t.node (c.resolve relative) with
  | .error _ => .error (.notFound (Path.projectForm relative))
  | .ok (.file _) => .ok [Path.projectForm relative]
  | .ok (.directory entries) =>
    let names := (Node.files [] (Node.directory entries).sorted).map Prod.fst
    .ok ((names.filter c.isDefinition).map fun ns =>
      Path.projectForm (ns.foldl Path.join relative))

theorem definitionFiles_eq_bind (c : Configuration) (t : FileTree) (path : String) :
    c.definitionFiles t path = c.inDefinitions path >>= c.filesAt t := rfl

/-- Names that lead from a place down to a file with the configured extension. -/
structure IsDefinitionBelow (c : Configuration) (top : Node) (place names : List String) :
    Prop where
  file : ∃ content, look (place ++ names) top = some (some content)
  extension : names.getLast?.bind Path.extension? = some c.extension

variable {c : Configuration} {t : FileTree} {relative : String} {place names : List String}

/-- What stands below a place where a directory stands. -/
theorem look_append_of_at? {es : List (String × Node)}
    (hat : t.top.at? place = some (.directory es)) :
    look (place ++ names) t.top = look names (.directory es) := by
  rw [look, Node.at?_append, hat]
  rfl

/-- The names of the files with the configured extension below a directory, as they are listed. -/
def definitionsBelow (c : Configuration) (es : List (String × Node)) : List (List String) :=
  ((Node.files [] (Node.directory es).sorted).map Prod.fst).filter c.isDefinition

theorem pairwise_definitionsBelow {es : List (String × Node)} (h : (Node.directory es).Proper) :
    (c.definitionsBelow es).Pairwise (· < ·) :=
  (List.pairwise_map.2 (Node.pairwise_files h [])).filter _

theorem mem_definitionsBelow (ht : t.top.Proper) {es : List (String × Node)}
    (hat : t.top.at? place = some (.directory es)) :
    names ∈ c.definitionsBelow es ↔ c.IsDefinitionBelow t.top place names := by
  have hproper := ht.at? hat
  have hlisted : names ∈ (Node.files [] (Node.directory es).sorted).map Prod.fst ↔
      ∃ content, look (place ++ names) t.top = some (some content) := by
    rw [look_append_of_at? hat, List.mem_map, Prod.exists]
    refine ⟨?_, fun ⟨content, hlook⟩ => ⟨names, content, ?_, rfl⟩⟩
    · rintro ⟨_, content, hp, rfl⟩
      obtain ⟨_, rfl, hlook⟩ := (Node.mem_files hproper.sorted).1 hp
      exact ⟨content, Node.look_sorted hproper _ ▸ hlook⟩
    · rw [← Node.look_sorted hproper] at hlook
      exact (Node.mem_files hproper.sorted).2 ⟨names, rfl, hlook⟩
  rw [definitionsBelow, List.mem_filter, hlisted, isDefinition, beq_iff_eq]
  exact ⟨fun h => ⟨h.1, h.2⟩, fun h => ⟨h.file, h.extension⟩⟩

/-- Files below a directory are listed under names of entries, one at least. -/
theorem isName_of_mem_definitionsBelow {es : List (String × Node)}
    (h : (Node.directory es).Proper) (hnames : names ∈ c.definitionsBelow es) :
    names ≠ [] ∧ ∀ s ∈ names, Path.IsName s := by
  obtain ⟨p, hp, rfl⟩ := List.mem_map.1 (List.mem_filter.1 hnames).1
  obtain ⟨names, he, hvalid, hne⟩ := Node.exists_names_of_mem_files h.sorted hp
  rw [he, List.nil_append]
  exact ⟨hne (by rw [Node.sorted]; rfl), hvalid⟩

theorem IsDefinitionBelow.isName (h : c.IsDefinitionBelow t.top place names) (ht : t.top.Proper)
    (hplace : look place t.top = some none) : names ≠ [] ∧ ∀ s ∈ names, Path.IsName s := by
  obtain ⟨es, hes⟩ := FileTree.exists_entries_of_look hplace
  exact isName_of_mem_definitionsBelow (ht.at? hes) ((mem_definitionsBelow ht hes).2 h)

/-- What a path stands for, by what it leads to and by its segments that count. -/
def found (c : Configuration) (n : Option Node) (ss : List String) :
    Except DiscoveryError (List String) :=
  match n with
  | none => .error (.notFound (Text.joinStrings "/" ss))
  | some (.file _) => .ok [Text.joinStrings "/" ss]
  | some (.directory es) =>
    .ok ((c.definitionsBelow es).map fun names => Text.joinStrings "/" (ss ++ names))

theorem found_eq_notFound_iff {n : Option Node} {ss : List String} :
    c.found n ss = .error (.notFound (Text.joinStrings "/" ss)) ↔ n = none := by
  cases n with
  | none => exact ⟨fun _ => rfl, fun _ => rfl⟩
  | some n => cases n <;> exact ⟨nofun, nofun⟩

theorem exists_found_eq_ok_iff {n : Option Node} {ss : List String} :
    (∃ files, c.found n ss = .ok files) ↔ n ≠ none := by
  cases n with
  | none => exact ⟨nofun, fun hne => absurd rfl hne⟩
  | some n => cases n <;> exact ⟨fun _ => nofun, fun _ => ⟨_, rfl⟩⟩

/-- What a path stands for depends on the place that it leads to and on its segments that count. -/
theorem filesAt_eq (ht : t.top.Proper)
    (hnode : (t.node (c.resolve relative)).toOption = t.top.at? place) :
    c.filesAt t relative = c.found (t.top.at? place) (Path.significant relative) := by
  rw [← hnode, filesAt, Path.projectForm_eq]
  cases hn : t.node (c.resolve relative) with
  | error e => rfl
  | ok n =>
    cases n with
    | file content => rfl
    | directory es =>
      have hat : t.top.at? place = some (.directory es) := by
        rw [← hnode, hn]
        rfl
      refine congrArg Except.ok (List.map_congr_left fun names hnames => ?_)
      exact Path.projectForm_names (isName_of_mem_definitionsBelow (ht.at? hat) hnames).2 relative

/-- The names of a file below a directory, put behind the path of the directory, lead to it. -/
theorem locate_under (ht : t.top.Proper) (hrelative : Path.isAbsolute relative = false)
    (hlocate : t.locate (c.resolve relative) = .ok place) (hplace : look place t.top = some none)
    (h : c.IsDefinitionBelow t.top place names) :
    t.locate (c.resolve (Path.under relative names)) = .ok (place ++ names) := by
  obtain ⟨hne, hnames⟩ := h.isName ht hplace
  have hempty : Path.join c.root relative ≠ "" := fun hempty => by
    rw [resolve, hempty] at hlocate
    cases hlocate
  rw [resolve, FileTree.locate_join t c.root hrelative hempty] at hlocate
  obtain ⟨at_, hroot, hfollow⟩ := bind_eq_ok.1 hlocate
  obtain ⟨name, hname⟩ := List.exists_mem_of_ne_nil names hne
  have habsolute := Path.isAbsolute_under hnames relative
  have hsegments := Path.segments_under hnames relative hne
  have hjoined : Path.join c.root (Path.under relative names) ≠ "" :=
    Path.join_ne_empty habsolute (hsegments ▸ List.mem_append_right _ hname) (hnames name hname).1 _
  rw [resolve, FileTree.locate_join t c.root habsolute hjoined, hroot, hsegments]
  obtain ⟨content, hfile⟩ := h.file
  change FileTree.follow t.top at_ _ = _
  rw [List.map_append, FileTree.follow_append, FileTree.follow_significant hfollow,
    FileTree.map_stepOf hnames]
  exact FileTree.follow_down (by rw [hfile]; rfl)

/-- A path that leads to a directory stands for the files below it, at any depth, with the configured
extension: for no others and for each once, in the order of the paths when these are compared segment
by segment by their bytes. If the path is one of the project, so are the paths of the files, and each
leads to its file. -/
theorem finds_all_below {path : String} (ht : t.top.Proper)
    (hpath : c.inDefinitions path = .ok relative)
    (hlocate : t.locate (c.resolve relative) = .ok place) (hplace : look place t.top = some none) :
    ∃ files, c.definitionFiles t path = .ok files ∧
      (files.Pairwise fun f g =>
        (Path.segments f).map Text.utf8 < (Path.segments g).map Text.utf8) ∧
      (∀ f, f ∈ files ↔
        ∃ names, c.IsDefinitionBelow t.top place names ∧ f = Path.under relative names) ∧
      (Path.isAbsolute relative = false → ∀ names, c.IsDefinitionBelow t.top place names →
        t.locate (c.resolve (Path.under relative names)) = .ok (place ++ names)) := by
  obtain ⟨es, hes⟩ := FileTree.exists_entries_of_look hplace
  have hnode := FileTree.toOption_node_of_locate hlocate
  have hmem : ∀ names, names ∈ c.definitionsBelow es ↔ c.IsDefinitionBelow t.top place names :=
    fun _ => mem_definitionsBelow ht hes
  refine ⟨(c.definitionsBelow es).map (Path.under relative), ?_, ?_, fun f => ?_,
    fun hrelative names => locate_under ht hrelative hlocate hplace⟩
  · rw [definitionFiles_eq_bind, hpath]
    refine (filesAt_eq ht hnode).trans ?_
    rw [hes]
    rfl
  · rw [List.pairwise_map]
    refine (pairwise_definitionsBelow (ht.at? hes)).imp_of_mem
      fun {names names'} hnames hnames' hlt => ?_
    obtain ⟨hne, hnames⟩ := isName_of_mem_definitionsBelow (ht.at? hes) hnames
    obtain ⟨hne', hnames'⟩ := isName_of_mem_definitionsBelow (ht.at? hes) hnames'
    rw [Path.segments_under hnames relative hne, Path.segments_under hnames' relative hne']
    exact List.map_lt (fun _ _ => Text.utf8_lt) (List.append_left_lt hlt)
  · simp only [List.mem_map, hmem, eq_comm]

/-- A directory whose entries do not stand in order. -/
def sampleDirectory : FileTree :=
  ⟨.directory [("p", .directory [("definitions", .directory [
    ("a.sqlx", .file (.text "")), ("notes.txt", .file (.text "")), ("a-b.sqlx", .file (.text "")),
    ("a", .directory [("z.sqlx", .file (.text ""))]), (".sqlx", .file (.text "")),
    ("d.sqlx", .directory []), ("x.y.sqlx", .file (.bytes [255]))])])], []⟩

theorem proper_sampleDirectory : sampleDirectory.top.Proper := by
  refine .directory (by decide) (by decide +kernel) (List.forall_mem_singleton.2 ?_)
  refine .directory (by decide) (by decide +kernel) (List.forall_mem_singleton.2 ?_)
  refine .directory (by decide) (by decide +kernel) ?_
  simp only [List.forall_mem_cons]
  exact ⟨.file _, .file _, .file _,
    .directory (by decide) (by decide +kernel) (List.forall_mem_singleton.2 (.file _)), .file _,
    .directory (by decide) (List.forall_mem_nil _) (List.forall_mem_nil _), .file _,
    List.forall_mem_nil _⟩

/-- The file in the directory comes first, although its path as a text does not. A name that is
nothing but an extension has none. -/
theorem finds_all_below_sample :
    sampleDirectory.top.Proper ∧ (default "/p").inDefinitions "." = .ok "definitions/" ∧
    sampleDirectory.locate ((default "/p").resolve "definitions/") = .ok ["p", "definitions"] ∧
    look ["p", "definitions"] sampleDirectory.top = some none ∧
    ∃ files, files = ["definitions/a/z.sqlx", "definitions/a-b.sqlx", "definitions/a.sqlx",
        "definitions/x.y.sqlx"] ∧
      (default "/p").definitionFiles sampleDirectory "." = .ok files ∧
      (files.Pairwise fun f g =>
        (Path.segments f).map Text.utf8 < (Path.segments g).map Text.utf8) ∧
      ∀ names, (default "/p").IsDefinitionBelow sampleDirectory.top ["p", "definitions"] names →
        Path.under "definitions/" names ∈ files ∧
        sampleDirectory.locate ((default "/p").resolve (Path.under "definitions/" names)) =
          .ok (["p", "definitions"] ++ names) := by
  have hpath : (default "/p").inDefinitions "." = .ok "definitions/" := by decide +kernel
  have hlocate : sampleDirectory.locate ((default "/p").resolve "definitions/") =
    .ok ["p", "definitions"] := by decide +kernel
  have hplace : look ["p", "definitions"] sampleDirectory.top = some none := by decide +kernel
  have hlist : (default "/p").definitionFiles sampleDirectory "." =
    .ok ["definitions/a/z.sqlx", "definitions/a-b.sqlx", "definitions/a.sqlx",
      "definitions/x.y.sqlx"] := by decide +kernel
  obtain ⟨files, hfiles, hsorted, hmem, hlocates⟩ :=
    finds_all_below proper_sampleDirectory hpath hlocate hplace
  exact ⟨proper_sampleDirectory, hpath, hlocate, hplace, files,
    Except.ok.inj (hfiles.symm.trans hlist), hfiles, hsorted, fun names hnames =>
      ⟨(hmem _).2 ⟨names, hnames, rfl⟩, hlocates (by decide +kernel) names hnames⟩⟩

end ColumnMetadata.Configuration
