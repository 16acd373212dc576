import ColumnMetadata.Proofs.Project.Walking

/-!
# Spellings of a path

A path may be given below the definitions directory, with that directory in front, with a `.` in
front, or from the top. All of these come to the segments that count (`belowRoot_relative`,
`belowRoot_absolute`), and whether the definitions directory is then put in front or is there already,
the same place is reached (`definitionFiles_outside`, `definitionFiles_inside`). The exception is a
definitions directory that is itself written with a `.` in front: paths are compared with it after
theirs is taken away, so none begins with it.
-/

namespace ColumnMetadata.Configuration

open Node (look)

/-- The definitions directory is a path of the project and leads to a directory. -/
structure HasDefinitions (c : Configuration) (t : FileTree) (base : List String) : Prop where
  root : Path.isAbsolute c.root = true
  relative : Path.isAbsolute c.definitionsDir = false
  located : t.locate (c.resolve c.definitionsDir) = .ok base
  directory : look base t.top = some none

/-- The definitions directory is not written with a `.` in front of other components. -/
def Plain (c : Configuration) : Prop :=
  ∀ rest, Path.components c.definitionsDir = .here :: rest → rest = []

variable {c : Configuration} {t : FileTree} {base names : List String} {p : String}

/-! ## Paths below the root -/

/-- A path below the root is read as its segments that count. -/
theorem belowRoot_relative (c : Configuration) (hp : Path.isAbsolute p = false) :
    c.belowRoot p = .ok (Text.joinStrings "/" (Path.significant p)) := by
  rw [← Path.ofComponents_filterMap fun s hs => Path.isSegment_of_mem_significant hs,
    ← Path.filter_components hp, belowRoot, hp, if_neg Bool.false_ne_true]

/-- A path from the top is read as what follows the root in it. -/
theorem belowRoot_absolute {ss : List String} (hss : ∀ s ∈ ss, Path.IsSegment s)
    (hp : Path.isAbsolute p = true)
    (hcomponents : Path.components p = Path.components c.root ++ ss.filterMap Path.component?) :
    c.belowRoot p = .ok (Text.joinStrings "/" ss) := by
  have hbelow : Path.below? p c.root = some (ss.filterMap Path.component?) :=
    Path.dropComponents?_eq_some.2 hcomponents
  rw [← Path.ofComponents_filterMap hss, ← Path.filter_filterMap_component, belowRoot, hp,
    if_pos rfl, hbelow]

theorem belowRoot_here (c : Configuration) (p : String) :
    c.belowRoot ("./" ++ p) = .ok (Text.joinStrings "/" (Path.significant p)) := by
  have habsolute : Path.isAbsolute ("./" ++ p) = false := by
    rw [Path.isAbsolute, String.toList_append]
    rfl
  rw [belowRoot_relative c habsolute, Path.significant_here]

/-- What a path stands for, by the path that it is read as. -/
theorem definitionFiles_of_belowRoot {q : String} (hp : c.belowRoot p = .ok q) :
    c.definitionFiles t p = c.filesAt t (if Path.startsWith q c.definitionsDir then q
      else Path.join c.definitionsDir q) := by
  have hdefinitions : c.inDefinitions p = .ok (if Path.startsWith q c.definitionsDir then q
      else Path.join c.definitionsDir q) := by
    rw [inDefinitions, hp]
    rfl
  rw [definitionFiles_eq_bind, hdefinitions]
  rfl

/-! ## Names below the definitions directory -/

namespace HasDefinitions

variable (h : c.HasDefinitions t base) (hnames : ∀ s ∈ names, Path.IsName s)

include h

theorem resolve_ne_empty (hp : Path.isAbsolute p = false) : c.resolve p ≠ "" := fun hempty => by
  have habsolute := (Path.isAbsolute_join c.root hp).trans h.root
  rw [← resolve, hempty] at habsolute
  cases habsolute

/-- Where the root leads, and from there the definitions directory. -/
theorem exists_entrance : ∃ at_, t.entrance c.root = .ok at_ ∧
    FileTree.follow t.top at_ ((Path.segments c.definitionsDir).map FileTree.stepOf) = .ok base := by
  have hlocated := h.located
  rw [resolve, FileTree.locate_join t c.root h.relative (h.resolve_ne_empty h.relative)] at hlocated
  exact bind_eq_ok.1 hlocated

include hnames

/-- Names behind the segments of the definitions directory that count. -/
theorem filesAt_under (ht : t.top.Proper) :
    c.filesAt t (Path.under c.definitionsDir names) =
      c.found (t.top.at? (base ++ names)) (Path.significant c.definitionsDir ++ names) := by
  have habsolute := Path.isAbsolute_under hnames c.definitionsDir
  obtain ⟨at_, hroot, hfollow⟩ := h.exists_entrance
  have hnode : (t.node (c.resolve (Path.under c.definitionsDir names))).toOption =
      t.top.at? (base ++ names) := by
    rw [resolve, FileTree.toOption_node_join hroot habsolute (h.resolve_ne_empty habsolute)]
    exact FileTree.at?_of_follow_joined (fun s hs => Path.isSegment_of_mem_significant hs) hnames
      (FileTree.follow_significant hfollow) h.directory
  rw [filesAt_eq ht hnode, Path.under,
    Path.significant_joined fun s hs => Path.isSegment_of_mem_under hnames hs]

/-- Names joined to the definitions directory. -/
theorem filesAt_join (ht : t.top.Proper) :
    c.filesAt t (Path.join c.definitionsDir (Text.joinStrings "/" names)) =
      c.found (t.top.at? (base ++ names)) (Path.significant c.definitionsDir ++ names) := by
  have hsegments : ∀ s ∈ names, Path.IsSegment s := fun s hs => (hnames s hs).isSegment
  have hjoined := Path.isAbsolute_joined hsegments
  have habsolute := (Path.isAbsolute_join c.definitionsDir hjoined).trans h.relative
  obtain ⟨at_, hroot, hfollow⟩ := h.exists_entrance
  have hnode : (t.node (c.resolve (Path.join c.definitionsDir
      (Text.joinStrings "/" names)))).toOption = t.top.at? (base ++ names) := by
    rw [resolve, FileTree.toOption_node_join hroot habsolute (h.resolve_ne_empty habsolute),
      Path.segments_join _ hjoined, List.map_append, FileTree.follow_append,
      FileTree.follow_leading hfollow]
    have hnone : ∀ s ∈ ([] : List String), Path.IsSegment s := List.forall_mem_nil _
    have hstay : FileTree.follow t.top base (([] : List String).map FileTree.stepOf) = .ok base :=
      rfl
    have hat := FileTree.at?_of_follow_joined hnone hnames hstay h.directory
    rw [List.nil_append] at hat
    exact hat
  rw [filesAt_eq ht hnode, Path.significant_join _ hjoined, Path.significant_joined hsegments]

/-- A path that does not begin with the definitions directory is looked up in it. -/
theorem definitionFiles_outside (ht : t.top.Proper)
    (hp : c.belowRoot p = .ok (Text.joinStrings "/" names))
    (hnot : ¬ Path.components c.definitionsDir <+: names.filterMap Path.component?) :
    c.definitionFiles t p =
      c.found (t.top.at? (base ++ names)) (Path.significant c.definitionsDir ++ names) := by
  have hsegments : ∀ s ∈ names, Path.IsSegment s := fun s hs => (hnames s hs).isSegment
  have hstarts : ¬ Path.startsWith (Text.joinStrings "/" names) c.definitionsDir = true := by
    rw [Path.startsWith_iff, Path.components_joined hsegments]
    exact hnot
  rw [definitionFiles_of_belowRoot hp, if_neg hstarts, h.filesAt_join hnames ht]

/-- A path that begins with the definitions directory is looked up as it is. -/
theorem definitionFiles_inside (ht : t.top.Proper) (hplain : c.Plain)
    (hp : c.belowRoot p = .ok (Path.under c.definitionsDir names)) :
    c.definitionFiles t p =
      c.found (t.top.at? (base ++ names)) (Path.significant c.definitionsDir ++ names) := by
  have hsegments : ∀ s ∈ Path.significant c.definitionsDir ++ names, Path.IsSegment s :=
    fun s hs => Path.isSegment_of_mem_under hnames hs
  rcases Path.lead_of_not_isAbsolute h.relative with hlead | hlead
  · have hstarts : Path.startsWith (Path.under c.definitionsDir names) c.definitionsDir = true := by
      rw [Path.startsWith_iff, Path.under, Path.components_joined hsegments, Path.components_eq,
        hlead, List.nil_append, List.filterMap_append]
      exact List.prefix_append _ _
    rw [definitionFiles_of_belowRoot hp, if_pos hstarts, h.filesAt_under hnames ht]
  · -- The definitions directory is `.`, so that nothing counts in front of the names.
    have hcomponents := Path.components_eq c.definitionsDir
    rw [hlead, List.singleton_append] at hcomponents
    have hnil : Path.significant c.definitionsDir = [] := by
      refine List.eq_nil_iff_forall_not_mem.2 fun s hs => ?_
      have hnone := List.filterMap_eq_nil_iff.1 (hplain _ hcomponents) s hs
      have hcounts := (Path.isSegment_of_mem_significant hs).1
      rw [Path.counts, hnone] at hcounts
      cases hcounts
    refine h.definitionFiles_outside hnames ht (by rw [hp, Path.under, hnil, List.nil_append]) ?_
    rw [hcomponents]
    intro hstarts
    exact (Path.not_lead_of_mem (hstarts.subset List.mem_cons_self)).2 rfl

end HasDefinitions

/-! ## Spellings of one path -/

namespace HasDefinitions

variable (h : c.HasDefinitions t base)

include h

/-- The definitions directory stands for the definition files below it. -/
theorem definitionFiles_definitionsDir (ht : t.top.Proper) (hplain : c.Plain) :
    ∃ files, c.definitionFiles t c.definitionsDir = .ok files ∧
      ∀ f, f ∈ files ↔ ∃ names, c.IsDefinitionBelow t.top base names ∧
        f = Path.under c.definitionsDir names := by
  obtain ⟨es, hes⟩ := FileTree.exists_entries_of_look h.directory
  have hread : c.belowRoot c.definitionsDir = .ok (Path.under c.definitionsDir []) := by
    rw [belowRoot_relative c h.relative, Path.under, List.append_nil]
  have hnone : ∀ s ∈ ([] : List String), Path.IsName s := List.forall_mem_nil _
  have hfiles := h.definitionFiles_inside hnone ht hplain hread
  rw [List.append_nil, List.append_nil, hes] at hfiles
  refine ⟨_, hfiles, fun f => ?_⟩
  simp only [List.mem_map, mem_definitionsBelow ht hes, Path.under, eq_comm]

theorem belowRoot_join (hp : Path.isAbsolute p = false) :
    c.belowRoot (Path.join c.definitionsDir p) =
      .ok (Path.under c.definitionsDir (Path.significant p)) := by
  have habsolute := (Path.isAbsolute_join c.definitionsDir hp).trans h.relative
  rw [belowRoot_relative c habsolute, Path.significant_join _ hp, Path.under]

theorem belowRoot_root_join (hp : Path.isAbsolute p = false) :
    c.belowRoot (Path.join (Path.join c.root c.definitionsDir) p) =
      .ok (Path.under c.definitionsDir (Path.significant p)) := by
  have hroot := (Path.isAbsolute_join c.root h.relative).trans h.root
  have hcomponents : Path.components (Path.join (Path.join c.root c.definitionsDir) p) =
      Path.components c.root ++
        (Path.significant c.definitionsDir ++ Path.significant p).filterMap Path.component? := by
    rw [Path.components_join hroot hp, Path.components_join h.root h.relative,
      List.filterMap_append, List.append_assoc]
  have hsegments : ∀ s ∈ Path.significant c.definitionsDir ++ Path.significant p,
      Path.IsSegment s :=
    List.forall_mem_append.2 ⟨fun _ => Path.isSegment_of_mem_significant,
      fun _ => Path.isSegment_of_mem_significant⟩
  exact belowRoot_absolute hsegments ((Path.isAbsolute_join _ hp).trans hroot) hcomponents

end HasDefinitions

/-- What a path stands for does not depend on how it is spelled. The definitions directory stands for
all definition files below it. A path without steps up that does not begin with the definitions
directory stands for the same with a `.` in front, with the definitions directory in front, and from
the top, and it is not found exactly if nothing stands below the definitions directory under its
names. Where the definitions directory is in front, it must not be written with a `.` of its own. -/
theorem discovery_ignores_spelling (ht : t.top.Proper) (h : c.HasDefinitions t base) :
    (c.Plain → ∃ files, c.definitionFiles t c.definitionsDir = .ok files ∧
      ∀ f, f ∈ files ↔ ∃ names, c.IsDefinitionBelow t.top base names ∧
        f = Path.under c.definitionsDir names) ∧
    ∀ p, Path.isAbsolute p = false → .up ∉ Path.components p →
      ¬ Path.components c.definitionsDir <+: (Path.components p).filter (· != .here) →
      c.definitionFiles t ("./" ++ p) = c.definitionFiles t p ∧
      (c.Plain → c.definitionFiles t (Path.join c.definitionsDir p) = c.definitionFiles t p ∧
        c.definitionFiles t (Path.join (Path.join c.root c.definitionsDir) p) =
          c.definitionFiles t p) ∧
      (c.definitionFiles t p = .error (.notFound (Path.under c.definitionsDir (Path.significant p))) ↔
        t.top.at? (base ++ Path.significant p) = none) ∧
      ((∃ files, c.definitionFiles t p = .ok files) ↔
        t.top.at? (base ++ Path.significant p) ≠ none) := by
  refine ⟨h.definitionFiles_definitionsDir ht, fun p hp hup hnot => ?_⟩
  have hnames := fun s hs => Path.isName_of_up_not_mem (s := s) hup hs
  rw [Path.filter_components hp] at hnot
  have hfound := h.definitionFiles_outside hnames ht (belowRoot_relative c hp) hnot
  have hhere := h.definitionFiles_outside hnames ht (belowRoot_here c p) hnot
  have hinside := fun hplain => h.definitionFiles_inside hnames ht hplain (h.belowRoot_join hp)
  have habsolute := fun hplain =>
    h.definitionFiles_inside hnames ht hplain (h.belowRoot_root_join hp)
  rw [hfound]
  exact ⟨hhere, fun hplain => ⟨hinside hplain, habsolute hplain⟩, found_eq_notFound_iff,
    exists_found_eq_ok_iff⟩

/-- The definitions directory of the sample, with steps that lead nowhere. -/
def sampleDetour : Configuration :=
  { default "/p" with definitionsDir := "definitions/../definitions//." }

theorem hasDefinitions_sampleDetour :
    sampleDetour.HasDefinitions sampleDirectory ["p", "definitions"] :=
  ⟨by decide +kernel, by decide +kernel, by decide +kernel, by decide +kernel⟩

/-- A directory with a slash at its end and without, with a `.`, and behind the definitions directory. -/
theorem discovery_ignores_spelling_sample :
    sampleDirectory.top.Proper ∧
    sampleDetour.HasDefinitions sampleDirectory ["p", "definitions"] ∧ sampleDetour.Plain ∧
    sampleDetour.definitionFiles sampleDirectory "a/" =
      .ok ["definitions/../definitions/a/z.sqlx"] ∧
    sampleDetour.definitionFiles sampleDirectory "./a/" =
      .ok ["definitions/../definitions/a/z.sqlx"] ∧
    sampleDetour.definitionFiles sampleDirectory "definitions/../definitions//./a/" =
      .ok ["definitions/../definitions/a/z.sqlx"] ∧
    sampleDetour.definitionFiles sampleDirectory "/p/definitions/../definitions//./a/" =
      .ok ["definitions/../definitions/a/z.sqlx"] := by
  have hplain : sampleDetour.Plain := by
    intro rest hrest
    have hcomponents : Path.components sampleDetour.definitionsDir =
      [.name "definitions", .up, .name "definitions"] := by decide +kernel
    rw [hcomponents] at hrest
    cases hrest
  have hfiles : sampleDetour.definitionFiles sampleDirectory "a/" =
    .ok ["definitions/../definitions/a/z.sqlx"] := by decide +kernel
  obtain ⟨-, hspellings⟩ :=
    discovery_ignores_spelling proper_sampleDirectory hasDefinitions_sampleDetour
  obtain ⟨hhere, hbehind, -⟩ :=
    hspellings "a/" (by decide +kernel) (by decide +kernel) (by decide +kernel)
  obtain ⟨hinside, habsolute⟩ := hbehind hplain
  exact ⟨proper_sampleDirectory, hasDefinitions_sampleDetour, hplain, hfiles, hhere.trans hfiles,
    hinside.trans hfiles, habsolute.trans hfiles⟩

/-- The definitions directory of the sample, with a `.` in front. -/
def sampleDotted : Configuration := { default "/p" with definitionsDir := "./definitions" }

/-- With a `.` in front the definitions directory is looked for in itself. -/
theorem discovery_ignores_spelling_fails :
    sampleDirectory.top.Proper ∧ sampleDotted.HasDefinitions sampleDirectory ["p", "definitions"] ∧
    sampleDotted.definitionFiles sampleDirectory sampleDotted.definitionsDir =
      .error (.notFound "definitions/definitions") :=
  ⟨proper_sampleDirectory,
    ⟨by decide +kernel, by decide +kernel, by decide +kernel, by decide +kernel⟩, by decide +kernel⟩

end ColumnMetadata.Configuration
