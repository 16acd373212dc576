import ColumnMetadata.Proofs.Files.Tree

/-!
# Listing the files of a tree

In a tree as a file system has it (`Node.Proper`) the entries of a directory have distinct names,
and a name is neither empty nor a step of a path and has no slash. So the files below a directory
are listed under lists of names, none of them empty (`Node.exists_names_of_mem_files`).
-/

namespace ColumnMetadata.Node

/-- What a file system ensures of a tree. -/
inductive Proper : Node → Prop
  | file (c : Content) : Proper (file c)
  | directory {es : List (String × Node)} (distinct : Entries.Distinct es)
      (names : ∀ e ∈ es, Path.IsName e.1) (below : ∀ e ∈ es, Proper e.2) : Proper (directory es)

theorem Proper.entries {es : List (String × Node)} (h : Proper (.directory es)) :
    Entries.Distinct es ∧ (∀ e ∈ es, Path.IsName e.1) ∧ ∀ e ∈ es, Proper e.2 := by
  cases h with
  | directory distinct names below => exact ⟨distinct, names, below⟩

/-- What stands in a proper tree is proper. -/
theorem Proper.at? {n m : Node} (h : n.Proper) {names : List String}
    (hm : Node.at? names n = some m) : m.Proper := by
  induction names generalizing n with
  | nil =>
    rw [Node.at?] at hm
    cases hm
    exact h
  | cons name names ih =>
    cases n with
    | file c => cases hm
    | directory es =>
      obtain ⟨below, hbelow, hm⟩ := Option.bind_eq_some_iff.1 hm
      exact ih (h.entries.2.2 _ (Entries.mem_of_find? hbelow)) hm

theorem sortedEntries_eq (es : List (String × Node)) :
    sortedEntries es = Entries.mapValues sorted es := by
  induction es with
  | nil => rfl
  | cons e es ih =>
    obtain ⟨name, n⟩ := e
    rw [sortedEntries, ih]
    rfl

theorem keys_sortedEntries (es : List (String × Node)) :
    Entries.keys (sortedEntries es) = Entries.keys es := by
  rw [sortedEntries_eq, Entries.keys_mapValues]

mutual

theorem Proper.sorted : ∀ {n : Node}, n.Proper → n.sorted.Proper
  | .file c, _ => by
    rw [Node.sorted]
    exact .file c
  | .directory es, h => by
    obtain ⟨hdistinct, hnames, hbelow⟩ := h.entries
    have hperm := Entries.sorted_perm (sortedEntries es)
    have hproper := proper_sortedEntries hbelow
    rw [Node.sorted]
    refine .directory ?_ (fun e he => ?_) fun e he => hproper e (hperm.mem_iff.1 he)
    · rw [Entries.Distinct, Entries.keys, (hperm.map Prod.fst).nodup_iff, ← Entries.keys,
        keys_sortedEntries]
      exact hdistinct
    · have hkey := List.mem_map_of_mem (f := Prod.fst) (hperm.mem_iff.1 he)
      have hkey : e.1 ∈ Entries.keys es := keys_sortedEntries es ▸ hkey
      obtain ⟨e', he', heq⟩ := List.mem_map.1 hkey
      exact heq ▸ hnames e' he'

theorem proper_sortedEntries : ∀ {es : List (String × Node)}, (∀ e ∈ es, Proper e.2) →
    ∀ e ∈ sortedEntries es, Proper e.2
  | [], _ => by
    rw [sortedEntries]
    exact nofun
  | (name, n) :: es, h => by
    obtain ⟨hn, hes⟩ := List.forall_mem_cons.1 h
    rw [sortedEntries]
    exact List.forall_mem_cons.2 ⟨Proper.sorted hn, proper_sortedEntries hes⟩

end

mutual

/-- The files of a proper node are listed under names. -/
theorem exists_names_of_mem_files : ∀ {n : Node} {at_ : List String} {p : List String × Content},
    n.Proper → p ∈ files at_ n →
      ∃ names, p.1 = at_ ++ names ∧ (∀ s ∈ names, Path.IsName s) ∧
        (n.content? = none → names ≠ [])
  | .file c, at_, p, _, hp => by
    rw [files, List.mem_singleton] at hp
    subst hp
    exact ⟨[], (List.append_nil at_).symm, nofun, nofun⟩
  | .directory es, at_, p, h, hp => by
    obtain ⟨-, hnames, hbelow⟩ := h.entries
    rw [files] at hp
    obtain ⟨names, hp, hnames, hne⟩ := exists_names_of_mem_entryFiles hnames hbelow hp
    exact ⟨names, hp, hnames, fun _ => hne⟩

theorem exists_names_of_mem_entryFiles : ∀ {es : List (String × Node)} {at_ : List String}
    {p : List String × Content}, (∀ e ∈ es, Path.IsName e.1) → (∀ e ∈ es, Proper e.2) →
      p ∈ entryFiles at_ es →
      ∃ names, p.1 = at_ ++ names ∧ (∀ s ∈ names, Path.IsName s) ∧ names ≠ []
  | [], _, _, _, _, hp => by
    rw [entryFiles] at hp
    cases hp
  | (name, n) :: es, at_, p, hnames, hbelow, hp => by
    obtain ⟨hname, hnames⟩ := List.forall_mem_cons.1 hnames
    obtain ⟨hn, hbelow⟩ := List.forall_mem_cons.1 hbelow
    rw [entryFiles] at hp
    rcases List.mem_append.1 hp with hp | hp
    · obtain ⟨names, hp, hvalid, -⟩ := exists_names_of_mem_files hn hp
      refine ⟨name :: names, ?_, List.forall_mem_cons.2 ⟨hname, hvalid⟩, List.cons_ne_nil _ _⟩
      rw [hp, List.append_assoc, List.singleton_append]
    · exact exists_names_of_mem_entryFiles hnames hbelow hp

end

end ColumnMetadata.Node
