import ColumnMetadata.Proofs.Files.Listing

/-!
# The shape of a file tree

The outline of a tree is the tree with nothing in its files (`Node.outline`). Where two trees have
the same outline, every path leads to the same place and the same files are listed; they differ in
what is read from the files at most (`FileTree.SameShape`). Replacing a file keeps the outline.
-/

namespace ColumnMetadata

namespace Node

mutual

/-- The tree with nothing in its files. -/
def outline : Node → Node
  | file _ => file (.text "")
  | directory es => directory (outlineEntries es)

/-- Entries with the outlines of their trees. -/
def outlineEntries : List (String × Node) → List (String × Node)
  | [] => []
  | (name, n) :: es => (name, outline n) :: outlineEntries es

end

theorem outlineEntries_eq (es : List (String × Node)) :
    outlineEntries es = Entries.mapValues outline es := by
  induction es with
  | nil => rfl
  | cons e es ih =>
    obtain ⟨name, n⟩ := e
    rw [outlineEntries, ih]
    rfl

theorem outline_directory (es : List (String × Node)) :
    outline (directory es) = directory (Entries.mapValues outline es) := by
  rw [outline, outlineEntries_eq]

theorem at?_outline (names : List String) (n : Node) :
    at? names n.outline = (at? names n).map outline := by
  induction names generalizing n with
  | nil => simp [at?]
  | cons name names ih =>
    cases n with
    | file c => rfl
    | directory es =>
      rw [outline_directory, at?, at?, Entries.find?_mapValues]
      cases Entries.find? name es with
      | none => rfl
      | some m => exact ih m

/-- Whether a file or a directory stands at a place is seen in the outline. -/
theorem map_isSome_look_outline (names : List String) (n : Node) :
    (look names n.outline).map Option.isSome = (look names n).map Option.isSome := by
  rw [look, look, at?_outline, Option.map_map, Option.map_map, Option.map_map]
  refine Option.map_congr fun m _ => ?_
  cases m with
  | file c => rfl
  | directory es => rfl

/-- Another content in the place of a file is not seen in the outline. -/
theorem outline_put {names : List String} {n : Node} {c : Content}
    (h : look names n = some (some c)) (d : Content) :
    outline (put (file d) names n) = outline n := by
  induction names generalizing n with
  | nil =>
    cases n with
    | file c => rfl
    | directory es => cases h
  | cons name names ih =>
    cases n with
    | file c => cases h
    | directory es =>
      rw [look_cons_directory] at h
      obtain ⟨m, hm, h⟩ := Option.bind_eq_some_iff.1 h
      rw [put, hm, Option.getD_some, outline_directory, outline_directory,
        Entries.mapValues_insert, ih h, Entries.insert_eq_self]
      rw [Entries.find?_mapValues, hm]
      rfl

mutual

theorem sorted_outline : ∀ n : Node, n.outline.sorted = n.sorted.outline
  | file c => by rw [outline, sorted, sorted, outline]
  | directory es => by
    rw [outline, sorted, sorted, outline, sortedEntries_outlineEntries es, outlineEntries_eq,
      outlineEntries_eq, Entries.mapValues_sorted]

theorem sortedEntries_outlineEntries : ∀ es : List (String × Node),
    sortedEntries (outlineEntries es) = outlineEntries (sortedEntries es)
  | [] => rfl
  | (name, n) :: es => by
    rw [outlineEntries, sortedEntries, sortedEntries, outlineEntries, sorted_outline n,
      sortedEntries_outlineEntries es]

end

mutual

theorem files_outline : ∀ (at_ : List String) (n : Node),
    (files at_ n.outline).map Prod.fst = (files at_ n).map Prod.fst
  | at_, file c => by
    rw [outline, files, files]
    rfl
  | at_, directory es => by
    rw [outline, files, files, entryFiles_outline at_ es]

theorem entryFiles_outline : ∀ (at_ : List String) (es : List (String × Node)),
    (entryFiles at_ (outlineEntries es)).map Prod.fst = (entryFiles at_ es).map Prod.fst
  | at_, [] => rfl
  | at_, (name, n) :: es => by
    rw [outlineEntries, entryFiles, entryFiles, List.map_append, List.map_append,
      files_outline (at_ ++ [name]) n, entryFiles_outline at_ es]

end

/-- A tree with the outline of a proper one is proper. -/
theorem Proper.of_outline {n n' : Node} (h : n.Proper) (he : n'.outline = n.outline) :
    n'.Proper := by
  induction h generalizing n' with
  | file c =>
    cases n' with
    | file c' => exact .file c'
    | directory es => cases he
  | @directory es distinct names below ih =>
    cases n' with
    | file c => cases he
    | directory es' =>
      rw [outline_directory, outline_directory] at he
      have he := Node.directory.inj he
      have hkeys : Entries.keys es' = Entries.keys es := by
        rw [← Entries.keys_mapValues outline es', he, Entries.keys_mapValues]
      refine .directory (by rw [Entries.Distinct, hkeys]; exact distinct) (fun e hmem => ?_) fun e hmem => ?_
      · have hkey : e.1 ∈ Entries.keys es := hkeys ▸ List.mem_map_of_mem hmem
        obtain ⟨e', hmem', heq⟩ := List.mem_map.1 hkey
        exact heq ▸ names e' hmem'
      · have hmem := List.mem_map_of_mem (f := fun e : String × Node => (e.1, outline e.2)) hmem
        rw [← Entries.mapValues, he] at hmem
        obtain ⟨e', hmem', heq⟩ := List.mem_map.1 hmem
        exact ih e' hmem' (Prod.mk.inj heq).2.symm

end Node

namespace FileTree

open Node (look)

/-- Two trees with the same directories and files; what is in the files may differ. -/
structure SameShape (t u : FileTree) : Prop where
  workingDirectory : u.workingDirectory = t.workingDirectory
  outline : u.top.outline = t.top.outline

namespace SameShape

variable {t u : FileTree}

theorem refl (t : FileTree) : t.SameShape t := ⟨rfl, rfl⟩

theorem trans {t u v : FileTree} (h : t.SameShape u) (h' : u.SameShape v) : t.SameShape v :=
  ⟨h'.workingDirectory.trans h.workingDirectory, h'.outline.trans h.outline⟩

theorem map_isSome_look (h : t.SameShape u) (q : List String) :
    (look q u.top).map Option.isSome = (look q t.top).map Option.isSome := by
  rw [← Node.map_isSome_look_outline, h.outline, Node.map_isSome_look_outline]

theorem look_eq_none (h : t.SameShape u) {q : List String} (hq : look q t.top = none) :
    look q u.top = none := by
  have hkind := h.map_isSome_look q
  rw [hq] at hkind
  exact Option.map_eq_none_iff.1 hkind

theorem look_directory (h : t.SameShape u) {q : List String} (hq : look q t.top = some none) :
    look q u.top = some none := by
  have hkind := h.map_isSome_look q
  rw [hq] at hkind
  obtain ⟨c?, hc, hnone⟩ := Option.map_eq_some_iff.1 hkind
  cases c? with
  | none => exact hc
  | some c => cases hnone

theorem exists_file (h : t.SameShape u) {q : List String} {c : Content}
    (hq : look q t.top = some (some c)) : ∃ d, look q u.top = some (some d) := by
  have hkind := h.map_isSome_look q
  rw [hq] at hkind
  obtain ⟨d?, hd, hsome⟩ := Option.map_eq_some_iff.1 hkind
  obtain ⟨d, rfl⟩ := Option.isSome_iff_exists.1 hsome
  exact ⟨d, hd⟩

/-- A path leads to the same place, or it leads nowhere for the same reason. -/
theorem follow_eq (h : t.SameShape u) (at_ : List String) (steps : List Step) :
    follow u.top at_ steps = follow t.top at_ steps := by
  induction steps generalizing at_ with
  | nil => rfl
  | cons s steps ih =>
    rw [follow_cons, follow_cons]
    rcases hlook : look at_ t.top with _ | _ | c
    · rw [h.look_eq_none hlook]
    · rw [h.look_directory hlook]
      cases s <;> exact ih _
    · obtain ⟨d, hd⟩ := h.exists_file hlook
      rw [hd]

theorem locate_eq (h : t.SameShape u) (p : String) : u.locate p = t.locate p := by
  rw [locate, locate, h.workingDirectory, h.follow_eq]

/-- What a path leads to has the same outline. -/
theorem map_outline_node (h : t.SameShape u) (p : String) :
    (u.node p).map Node.outline = (t.node p).map Node.outline := by
  cases hp : t.locate p with
  | error e =>
    have hp' := (h.locate_eq p).trans hp
    rw [node, node, hp, hp']
    rfl
  | ok names =>
    have hat : (u.top.at? names).map Node.outline = (t.top.at? names).map Node.outline := by
      rw [← Node.at?_outline, h.outline, Node.at?_outline]
    rw [node_of_locate hp, node_of_locate ((h.locate_eq p).trans hp)]
    cases ht : t.top.at? names with
    | none =>
      rw [ht] at hat
      rw [Option.map_eq_none_iff.1 hat]
    | some n =>
      rw [ht] at hat
      obtain ⟨n', hn', he⟩ := Option.map_eq_some_iff.1 hat
      rw [hn']
      exact congrArg Except.ok he

/-- What is read at a path is the same where the same is seen at its place. -/
theorem readText_eq (h : t.SameShape u) {p : String}
    (hlook : ∀ q, t.locate p = .ok q → look q u.top = look q t.top) :
    u.readText p = t.readText p := by
  cases hp : t.locate p with
  | error e =>
    have hp' := (h.locate_eq p).trans hp
    rw [readText, readText, node, node, hp, hp']
    rfl
  | ok names =>
    rw [readText_of_locate hp, readText_of_locate ((h.locate_eq p).trans hp), hlook names hp]

/-- A file is still there, so replacing it keeps the shape. -/
theorem replaceText (h : t.SameShape u) {p text : String} (hp : t.readText p = .ok text)
    {refused : Refusals} {s : String} {u' : FileTree} (hu : u.replaceText refused p s = .ok u') :
    t.SameShape u' := by
  obtain ⟨names, hnames, hlook⟩ := readText_eq_ok.1 hp
  obtain ⟨d, hd⟩ := h.exists_file hlook
  obtain ⟨names', hnames', -, -, -, -, rfl⟩ := replaceText_eq_ok hu
  rw [h.locate_eq, hnames] at hnames'
  cases hnames'
  exact ⟨h.workingDirectory, (Node.outline_put hd (.text s)).trans h.outline⟩

end SameShape

end FileTree

end ColumnMetadata
