import ColumnMetadata.Proofs.Basic
import ColumnMetadata.Proofs.Definition.Filling

/-!
# Columns in a given order

Putting columns in an order moves entries and does nothing else to them. The names that the order
has come first, each in the place of its first occurrence there, and the others follow as they stood
(`Columns.keys_reorder`). With the records under their names as they were, that says which columns
come out (`Columns.reorder_moves_named_to_front`).
-/

namespace ColumnMetadata.Columns

/-- The names that the order has in front, and the others behind them. A name that the columns do not
have is passed over, and so is one that was moved already. -/
theorem keys_reorder {cs : Columns} (h : Entries.Distinct cs) (names : List String) :
    Entries.keys (reorder names cs) =
      (names.filter fun name => (Entries.keys cs).contains name).eraseDups ++
        (Entries.keys cs).filter fun name => !names.contains name := by
  induction names generalizing cs with
  | nil => simp [reorder]
  | cons name names ih =>
    cases hc : Entries.find? name cs with
    | none =>
      have hname : name ∉ Entries.keys cs := Entries.find?_eq_none.1 hc
      have hothers : ((Entries.keys cs).filter fun k => !(name :: names).contains k) =
          (Entries.keys cs).filter fun k => !names.contains k := by
        refine List.filter_congr fun k hk => ?_
        have hne : k ≠ name := fun he => hname (he ▸ hk)
        rw [List.contains_cons, beq_false_of_ne hne, Bool.false_or]
      rw [reorder, hc, List.filter_cons_of_neg (mt List.contains_iff_mem.1 hname), hothers]
      exact ih h
    | some c =>
      have hname : name ∈ Entries.keys cs := Entries.find?_isSome.1 (hc ▸ rfl)
      -- What is left are the entries under other names.
      have hkeys : Entries.keys (Entries.erase name cs) =
          (Entries.keys cs).filter fun k => k != name := by
        rw [Entries.erase_eq_filter h, Entries.keys, Entries.keys, List.filter_map]
        rfl
      have hnamed : (names.filter fun k => (Entries.keys (Entries.erase name cs)).contains k) =
          (names.filter fun k => (Entries.keys cs).contains k).filter fun k => !k == name := by
        rw [List.filter_filter, hkeys]
        refine List.filter_congr fun k _ => ?_
        rw [Bool.eq_iff_iff, List.contains_iff_mem, List.mem_filter, Bool.and_eq_true,
          List.contains_iff_mem, and_comm]
        rfl
      have hothers : ((Entries.keys (Entries.erase name cs)).filter fun k => !names.contains k) =
          (Entries.keys cs).filter fun k => !(name :: names).contains k := by
        rw [hkeys, List.filter_filter]
        refine List.filter_congr fun k _ => ?_
        rw [List.contains_cons, Bool.not_or, Bool.and_comm]
        rfl
      rw [reorder, hc, List.filter_cons_of_pos (List.contains_iff_mem.2 hname),
        List.eraseDups_cons, ← hnamed, ← hothers, List.cons_append]
      exact congrArg (name :: ·) (ih (h.erase name))

/-- Columns are moved exactly when they come out otherwise than they went in. -/
theorem isMovedBy_iff {cs : Columns} (h : Entries.Distinct cs) (t : WarehouseTable) :
    cs.isMovedBy t = true ↔ cs.matchOrder t ≠ cs := by
  rw [isMovedBy, bne_iff_ne]
  refine not_congr ⟨fun hkeys => ?_, congrArg Entries.keys⟩
  have hdistinct : Entries.Distinct (cs.matchOrder t) := by
    rw [Entries.Distinct, hkeys]
    exact h
  exact Entries.ext_of_find? hdistinct hkeys fun name _ => find?_reorder h t.columnNames name

/-- What putting columns in an order does. The entries are the same ones and each name has its
record; the names that the order has come first, in the order of their first occurrence there, and
the others follow as they stood. Columns that are in order stay as they are. And the order of a table
is said to have moved columns exactly when their names stand otherwise than before. -/
theorem reorder_moves_named_to_front {cs : Columns} (h : Entries.Distinct cs)
    (names : List String) (t : WarehouseTable) :
    (reorder names cs).Perm cs ∧
    (∀ name, Entries.find? name (reorder names cs) = Entries.find? name cs) ∧
    Entries.keys (reorder names cs) =
      (names.filter fun name => (Entries.keys cs).contains name).eraseDups ++
        ((Entries.keys cs).filter fun name => !names.contains name) ∧
    reorder names (reorder names cs) = reorder names cs ∧
    cs.matchOrder t = reorder t.columnNames cs ∧
    (cs.isMovedBy t = true ↔ Entries.keys (cs.matchOrder t) ≠ Entries.keys cs) ∧
    (cs.isMovedBy t = true ↔ cs.matchOrder t ≠ cs) :=
  ⟨reorder_perm names cs, find?_reorder h names, keys_reorder h names, reorder_reorder h names, rfl,
    bne_iff_ne, isMovedBy_iff h t⟩

/-- Columns of which a table has the third and the first. -/
def sampleUnordered : Columns :=
  [("id", .ofDescription "key"), ("region", .ofDescription ""), ("amount", ⟨"", some ["t"], [], []⟩),
    ("note", .ofDescription "free text")]

/-- The order has one name twice and one that no column has. -/
theorem reorder_moves_named_to_front_sample :
    Entries.Distinct sampleUnordered ∧
    Entries.keys (reorder ["amount", "missing", "id", "amount"] sampleUnordered) =
      ["amount", "id", "region", "note"] ∧
    Entries.find? "amount" (reorder ["amount", "missing", "id", "amount"] sampleUnordered) =
      some ⟨"", some ["t"], [], []⟩ ∧
    sampleUnordered.isMovedBy ⟨"s", "t", [⟨"amount", none, none⟩, ⟨"id", none, none⟩]⟩ = true := by
  have h : Entries.Distinct sampleUnordered := by decide
  obtain ⟨-, hfind, hkeys, -, -, hmoved, -⟩ :=
    reorder_moves_named_to_front h ["amount", "missing", "id", "amount"]
      ⟨"s", "t", [⟨"amount", none, none⟩, ⟨"id", none, none⟩]⟩
  exact ⟨h, hkeys.trans (by decide +kernel), (hfind "amount").trans (by decide +kernel),
    hmoved.2 (by decide +kernel)⟩

end ColumnMetadata.Columns
