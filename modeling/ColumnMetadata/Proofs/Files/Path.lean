import ColumnMetadata.Files.Path
import ColumnMetadata.Proofs.Text.Splitting

/-!
# The segments of joined paths

Joining keeps the segments of both paths (`segments_join`). Of the segments those count that are
names or steps up (`significant`): the project form of a path is put together from them
(`projectForm_eq`), and names that are joined to a path stand behind those that the path has
(`significant_foldl_join`).
-/

namespace ColumnMetadata

namespace Path

/-- A name that a directory may have for one of its entries. -/
def IsName (s : String) : Prop := s ≠ "" ∧ s ≠ "." ∧ s ≠ ".." ∧ '/' ∉ s.toList

instance (s : String) : Decidable (IsName s) := inferInstanceAs (Decidable (_ ∧ _))

theorem segments_slash (a b : String) : segments (a ++ "/" ++ b) = segments a ++ segments b := by
  unfold segments
  rw [String.toList_append, String.toList_append, ← List.map_append,
    ← Text.splitOnChar_append_cons]
  simp

theorem segments_of_not_mem {s : String} (h : '/' ∉ s.toList) : segments s = [s] := by
  rw [segments, Text.splitOnChar_of_not_mem h, List.map_singleton, String.ofList_toList]

theorem segments_empty : segments "" = [""] := segments_of_not_mem (by decide)

theorem not_mem_of_mem_segments {p s : String} (h : s ∈ segments p) : '/' ∉ s.toList := by
  obtain ⟨part, hpart, rfl⟩ := List.mem_map.1 h
  rw [String.toList_ofList]
  exact Text.not_mem_of_mem_splitOnChar hpart

/-- The first segment of an absolute path is empty. -/
theorem head?_segments_of_isAbsolute {p : String} (h : isAbsolute p = true) :
    (segments p).head? = some "" := by
  rw [isAbsolute, beq_iff_eq] at h
  obtain ⟨cs, hcs⟩ := List.head?_eq_some_iff.1 h
  rw [segments, hcs, Text.splitOnChar, if_pos rfl]
  rfl

/-! ## Joining -/

/-- The segments that a path gives to those that are joined to it. -/
def leading (base : String) : List String :=
  if base = "" ∨ base.toList.getLast? = some '/' then (segments base).dropLast else segments base

/-- A last slash gives a last segment that is empty. -/
theorem exists_of_getLast? {base : String} (h : base.toList.getLast? = some '/') :
    ∃ b, base = b ++ "/" ∧ segments base = segments b ++ [""] := by
  obtain ⟨cs, hcs⟩ := List.getLast?_eq_some_iff.1 h
  have hbase : base = String.ofList cs ++ "/" := by
    rw [← String.toList_inj, hcs]
    simp
  have hsegments := segments_slash (String.ofList cs) ""
  rw [String.append_empty, segments_empty, ← hbase] at hsegments
  exact ⟨_, hbase, hsegments⟩

theorem segments_join (base : String) {p : String} (h : isAbsolute p = false) :
    segments (join base p) = leading base ++ segments p := by
  unfold join leading
  rw [h, if_neg Bool.false_ne_true]
  by_cases hempty : base = ""
  · subst hempty
    rw [if_pos (.inl rfl), if_pos (.inl rfl), String.empty_append, segments_empty]
    rfl
  · by_cases hslash : base.toList.getLast? = some '/'
    · obtain ⟨b, hb, hsegments⟩ := exists_of_getLast? hslash
      rw [if_pos (.inr hslash), if_pos (.inr hslash), hsegments, List.dropLast_concat, hb,
        segments_slash]
    · rw [if_neg (by simp [hempty, hslash]), if_neg (by simp [hempty, hslash]), segments_slash]

theorem isAbsolute_join (base : String) {p : String} (h : isAbsolute p = false) :
    isAbsolute (join base p) = isAbsolute base := by
  unfold join
  rw [h, if_neg Bool.false_ne_true]
  by_cases hempty : base = ""
  · subst hempty
    rw [if_pos (.inl rfl), String.empty_append, h]
    rfl
  · obtain ⟨c, cs, hcs⟩ := List.exists_cons_of_ne_nil fun hnil => hempty (String.toList_eq_nil_iff.1 hnil)
    unfold isAbsolute
    split <;> simp [hcs]

/-! ## The project form -/

/-- Whether a segment counts anywhere in a path. -/
def counts (segment : String) : Bool := (component? segment).isSome

/-- The segments of a path that count. -/
def significant (p : String) : List String := (segments p).filter counts

theorem IsName.counts {s : String} (h : IsName s) : counts s = true := by
  obtain ⟨hempty, hhere, hup, -⟩ := h
  simp [Path.counts, component?, hempty, hhere, hup]

theorem isAbsolute_of_not_mem {s : String} (h : '/' ∉ s.toList) : isAbsolute s = false := by
  refine Bool.eq_false_iff.2 fun habs => ?_
  rw [isAbsolute, beq_iff_eq] at habs
  exact h (List.mem_of_head? habs)

theorem IsName.isAbsolute {s : String} (h : IsName s) : isAbsolute s = false :=
  isAbsolute_of_not_mem h.2.2.2

section ProjectForm

variable {g : Component → Option String} (hroot : g .root = none) (hhere : g .here = none)
  (hup : g .up = some "..") (hname : ∀ n, g (.name n) = some n)

include hup hname in
theorem component?_bind (s : String) : (component? s).bind g = Option.guard counts s := by
  unfold Option.guard counts component?
  split
  · rfl
  · split
    · next hs => rw [Option.bind_some, hup, hs]; rfl
    · rw [Option.bind_some, hname]; rfl

include hroot hhere hup hname in
theorem filterMap_components (p : String) :
    (components p).filterMap g = significant p := by
  unfold components significant
  rw [List.filterMap_append, List.filterMap_filterMap, funext (component?_bind hup hname),
    List.filterMap_eq_filter]
  split
  · simp [hroot]
  · split <;> simp [hhere]

end ProjectForm

theorem projectForm_eq (p : String) : projectForm p = Text.joinStrings "/" (significant p) :=
  congrArg (Text.joinStrings "/") (filterMap_components rfl rfl rfl (fun _ => rfl) p)

theorem segments_joinStrings {parts : List String} (hne : parts ≠ [])
    (h : ∀ s ∈ parts, '/' ∉ s.toList) : segments (Text.joinStrings "/" parts) = parts := by
  have hparts : ∀ part ∈ parts.map String.toList, '/' ∉ part := by
    intro part hpart
    obtain ⟨s, hs, rfl⟩ := List.mem_map.1 hpart
    exact h s hs
  have hslash : "/".toList = ['/'] := rfl
  rw [segments, Text.joinStrings, String.toList_ofList, hslash,
    Text.splitOnChar_join (fun hnil => hne (List.map_eq_nil_iff.1 hnil)) hparts, List.map_map]
  simp

theorem filter_leading (base : String) :
    (leading base).filter counts = (segments base).filter counts := by
  unfold leading
  split
  · next h =>
    obtain ⟨b, hb⟩ : ∃ b, segments base = b ++ [""] := by
      rcases h with rfl | h
      · exact ⟨[], segments_empty⟩
      · obtain ⟨b, -, hb⟩ := exists_of_getLast? h
        exact ⟨_, hb⟩
    rw [hb, List.dropLast_concat, List.filter_append]
    simp [counts, component?]
  · rfl

theorem significant_join (base : String) {p : String} (h : isAbsolute p = false) :
    significant (join base p) = significant base ++ significant p := by
  rw [significant, segments_join base h, List.filter_append, filter_leading]
  rfl

theorem IsName.significant {s : String} (h : IsName s) : significant s = [s] := by
  rw [Path.significant, segments_of_not_mem h.2.2.2, List.filter_cons_of_pos h.counts,
    List.filter_nil]

/-- The segments of a path that count, and names that are joined to it. -/
theorem significant_foldl_join {names : List String} (hnames : ∀ s ∈ names, IsName s)
    (base : String) : significant (names.foldl join base) = significant base ++ names := by
  induction names generalizing base with
  | nil => rw [List.foldl_nil, List.append_nil]
  | cons name names ih =>
    obtain ⟨hname, hnames⟩ := List.forall_mem_cons.1 hnames
    rw [List.foldl_cons, ih hnames, significant_join base hname.isAbsolute, hname.significant,
      List.append_assoc, List.singleton_append]

end Path

end ColumnMetadata
