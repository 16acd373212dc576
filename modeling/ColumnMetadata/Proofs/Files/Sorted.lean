import Mathlib.Data.String.Basic
import ColumnMetadata.Proofs.Files.Listing

/-!
# What is listed, and in which order

A file is listed under the names that lead to it (`Node.mem_files`). In a tree whose entries are
sorted it is found under the same names as before (`Node.at?_sorted`), and the files are listed in
the order of their names, compared one by one (`Node.pairwise_files`): all files of a directory come
before those of the next entry, which the texts of their paths need not do.
-/

namespace ColumnMetadata

namespace Entries

variable {α : Type}

theorem mem_insertSorted {e f : String × α} {es : Entries α} :
    f ∈ insertSorted e es ↔ f = e ∨ f ∈ es := by
  rw [(insertSorted_perm e es).mem_iff, List.mem_cons]

theorem pairwise_insertSorted (e : String × α) {es : Entries α}
    (h : es.Pairwise fun f g => f.1 ≤ g.1) : (insertSorted e es).Pairwise fun f g => f.1 ≤ g.1 := by
  induction es with
  | nil => exact List.pairwise_singleton _ _
  | cons f es ih =>
    obtain ⟨hf, hes⟩ := List.pairwise_cons.1 h
    unfold insertSorted
    split
    · next hle =>
      refine List.pairwise_cons.2 ⟨List.forall_mem_cons.2 ⟨hle, fun g hg => ?_⟩, h⟩
      exact le_trans hle (hf g hg)
    · next hlt =>
      refine List.pairwise_cons.2 ⟨fun g hg => ?_, ih hes⟩
      rcases mem_insertSorted.1 hg with rfl | hg
      · exact le_of_not_ge hlt
      · exact hf g hg

/-- Sorted entries stand in the order of their keys. -/
theorem pairwise_sorted {es : Entries α} (h : Distinct es) :
    (sorted es).Pairwise fun e f => e.1 < f.1 := by
  have hle : (sorted es).Pairwise fun e f => e.1 ≤ f.1 := by
    clear h
    induction es with
    | nil => exact .nil
    | cons e es ih => exact pairwise_insertSorted e ih
  have hne : (sorted es).Pairwise fun e f => e.1 ≠ f.1 :=
    List.pairwise_map.1 (((sorted_perm es).map Prod.fst).nodup_iff.2 h)
  exact (hle.and hne).imp fun hef => lt_of_le_of_ne hef.1 hef.2

end Entries

namespace Node

theorem entryFiles_eq (at_ : List String) (es : List (String × Node)) :
    entryFiles at_ es = es.flatMap fun e => files (at_ ++ [e.1]) e.2 := by
  induction es with
  | nil => rfl
  | cons e es ih =>
    obtain ⟨name, n⟩ := e
    rw [entryFiles, ih, List.flatMap_cons]

/-- The files of a node are listed under the names that lead to them. -/
theorem mem_files {n : Node} (h : n.Proper) {at_ : List String} {p : List String × Content} :
    p ∈ files at_ n ↔ ∃ names, p.1 = at_ ++ names ∧ look names n = some (some p.2) := by
  induction h generalizing at_ p with
  | file c =>
    rw [files, List.mem_singleton]
    constructor
    · rintro rfl
      exact ⟨[], (List.append_nil at_).symm, rfl⟩
    · rintro ⟨names, hp, hlook⟩
      cases names with
      | nil =>
        cases hlook
        rw [List.append_nil] at hp
        exact Prod.ext hp rfl
      | cons name names => cases hlook
  | @directory es distinct _ below ih =>
    rw [files, entryFiles_eq, List.mem_flatMap]
    constructor
    · rintro ⟨e, he, hp⟩
      obtain ⟨names, hp, hlook⟩ := (ih e he).1 hp
      refine ⟨e.1 :: names, by rw [hp, List.append_assoc, List.singleton_append], ?_⟩
      rw [look_cons_directory, Entries.find?_of_mem distinct he, Option.bind_some, hlook]
    · rintro ⟨names, hp, hlook⟩
      cases names with
      | nil => cases hlook
      | cons name names =>
        rw [look_cons_directory] at hlook
        obtain ⟨n, hn, hlook⟩ := Option.bind_eq_some_iff.1 hlook
        have hmem := Entries.mem_of_find? hn
        refine ⟨(name, n), hmem, (ih _ hmem).2 ⟨names, ?_, hlook⟩⟩
        rw [hp, List.append_assoc, List.singleton_append]

theorem sorted_directory (es : List (String × Node)) :
    sorted (directory es) = directory (Entries.sorted (Entries.mapValues sorted es)) := by
  rw [sorted, sortedEntries_eq]

theorem content?_sorted (n : Node) : n.sorted.content? = n.content? := by
  cases n with
  | file c => rw [sorted]
  | directory es =>
    rw [sorted]
    rfl

/-- Sorting does not change what stands where. -/
theorem at?_sorted {n : Node} (h : n.Proper) (names : List String) :
    at? names n.sorted = (at? names n).map sorted := by
  induction names generalizing n with
  | nil => rfl
  | cons name names ih =>
    cases n with
    | file c =>
      rw [sorted]
      rfl
    | directory es =>
      obtain ⟨hdistinct, -, hbelow⟩ := h.entries
      have hdistinct : Entries.Distinct (Entries.mapValues sorted es) := by
        rw [Entries.Distinct, Entries.keys_mapValues]
        exact hdistinct
      rw [sorted_directory, at?, at?, Entries.find?_of_perm hdistinct (Entries.sorted_perm _),
        Entries.find?_mapValues]
      cases hn : Entries.find? name es with
      | none => rfl
      | some n => exact ih (hbelow _ (Entries.mem_of_find? hn))

theorem look_sorted {n : Node} (h : n.Proper) (names : List String) :
    look names n.sorted = look names n := by
  rw [look, at?_sorted h, Option.map_map, look]
  exact congrArg (Option.map · _) (funext content?_sorted)

/-- In a sorted tree the files are listed in the order of their names, compared one by one. -/
theorem pairwise_files {n : Node} (h : n.Proper) (at_ : List String) :
    (files at_ n.sorted).Pairwise fun p q => p.1 < q.1 := by
  induction h generalizing at_ with
  | file c =>
    rw [sorted, files]
    exact List.pairwise_singleton _ _
  | @directory es distinct names below ih =>
    have hdistinct : Entries.Distinct (Entries.mapValues sorted es) := by
      rw [Entries.Distinct, Entries.keys_mapValues]
      exact distinct
    have hentry : ∀ e ∈ Entries.sorted (Entries.mapValues sorted es),
        ∃ m, (e.1, m) ∈ es ∧ e.2 = m.sorted := by
      intro e he
      obtain ⟨e', he', rfl⟩ := List.mem_map.1 ((Entries.sorted_perm _).mem_iff.1 he)
      exact ⟨e'.2, he', rfl⟩
    rw [sorted_directory, files, entryFiles_eq, List.pairwise_flatMap]
    constructor
    · intro e he
      obtain ⟨m, hm, hsorted⟩ := hentry e he
      rw [hsorted]
      exact ih _ hm _
    · refine List.Pairwise.imp_of_mem (fun {e f} he hf hlt p hp q hq => ?_)
        (Entries.pairwise_sorted hdistinct)
      -- What is listed for two entries differs in the name of the entry first.
      have hproper : ∀ g ∈ Entries.sorted (Entries.mapValues sorted es), g.2.Proper := by
        intro g hg
        obtain ⟨m, hm, hsorted⟩ := hentry g hg
        rw [hsorted]
        exact (below _ hm).sorted
      obtain ⟨pnames, hp, -⟩ := (mem_files (hproper e he)).1 hp
      obtain ⟨qnames, hq, -⟩ := (mem_files (hproper f hf)).1 hq
      rw [hp, hq, List.append_assoc, List.append_assoc, List.singleton_append,
        List.singleton_append]
      exact List.append_left_lt (List.cons_lt_cons_iff.2 (.inl hlt))

end Node

end ColumnMetadata
