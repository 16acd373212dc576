import ColumnMetadata.Text.Blank
import ColumnMetadata.Text.Search

/-!
# Parts between separators

Joined parts are found again when none of them has the separator (`splitOnChar_join`), and trimming
leaves a text alone that neither begins nor ends with a blank (`trim_eq_self`).
-/

namespace ColumnMetadata.Text

theorem splitOnChar_append_cons (sep : Char) (a b : List Char) :
    splitOnChar sep (a ++ sep :: b) = splitOnChar sep a ++ splitOnChar sep b := by
  induction a with
  | nil => simp [splitOnChar]
  | cons c a ih =>
    rw [List.cons_append, splitOnChar, splitOnChar, ih]
    split
    · rfl
    · cases hs : splitOnChar sep a with
      | nil => exact absurd hs (splitOnChar_ne_nil sep a)
      | cons part parts => rfl

theorem splitOnChar_of_not_mem {sep : Char} {cs : List Char} (h : sep ∉ cs) :
    splitOnChar sep cs = [cs] := by
  induction cs with
  | nil => rfl
  | cons c cs ih =>
    rw [List.mem_cons, not_or] at h
    rw [splitOnChar, if_neg (Ne.symm h.1), ih h.2]

/-- Parts without the separator are found again between the separators. -/
theorem splitOnChar_join {sep : Char} {parts : List (List Char)} (hne : parts ≠ [])
    (h : ∀ part ∈ parts, sep ∉ part) : splitOnChar sep (join [sep] parts) = parts := by
  induction parts with
  | nil => exact absurd rfl hne
  | cons part parts ih =>
    obtain ⟨hpart, hparts⟩ := List.forall_mem_cons.1 h
    cases parts with
    | nil => rw [join, splitOnChar_of_not_mem hpart]
    | cons next parts =>
      rw [join, List.append_assoc, List.singleton_append, splitOnChar_append_cons,
        splitOnChar_of_not_mem hpart, ih (List.cons_ne_nil _ _) hparts, List.singleton_append]

/-- No part of a text has the separator. -/
theorem not_mem_of_mem_splitOnChar {sep : Char} {cs part : List Char}
    (h : part ∈ splitOnChar sep cs) : sep ∉ part := by
  induction cs generalizing part with
  | nil => simp_all [splitOnChar]
  | cons c cs ih =>
    unfold splitOnChar at h
    split at h
    · rcases List.mem_cons.1 h with rfl | h
      · exact List.not_mem_nil
      · exact ih h
    · next hc =>
      split at h
      · next hs => exact absurd hs (splitOnChar_ne_nil sep cs)
      · next first parts hs =>
        rw [hs] at ih
        rcases List.mem_cons.1 h with rfl | h
        · rw [List.mem_cons, not_or]
          exact ⟨Ne.symm hc, ih List.mem_cons_self⟩
        · exact ih (List.mem_cons_of_mem _ h)

theorem trimStart_of_head {cs : List Char} (h : ∀ c ∈ cs.head?, isBlank c = false) :
    trimStart cs = cs := by
  cases cs with
  | nil => rfl
  | cons c cs => exact trimStart_eq_self (h c rfl)

/-- A text that neither begins nor ends with a blank. -/
theorem trim_eq_self {cs : List Char} (hfirst : ∀ c ∈ cs.head?, isBlank c = false)
    (hlast : ∀ c ∈ cs.getLast?, isBlank c = false) : trim cs = cs := by
  rw [trim, trimEnd, trimStart_of_head hfirst]
  rw [trimStart_of_head, List.reverse_reverse]
  rwa [List.head?_reverse]

end ColumnMetadata.Text
