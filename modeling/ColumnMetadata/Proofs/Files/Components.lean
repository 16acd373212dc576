import Mathlib.Data.List.Basic
import Mathlib.Data.List.Induction
import ColumnMetadata.Proofs.Files.Path

/-!
# The segments of a path that count

A path means its first component, if that is a slash or a `.`, and the segments that count
(`components_eq`): the names and the steps up. What is put together from such segments has them and
no others (`segments_joined`), leads with nothing else (`components_joined`), and is what putting
their components together gives (`ofComponents_filterMap`).
-/

namespace ColumnMetadata.Path

/-- A segment that counts: a name or a step up. -/
def IsSegment (s : String) : Prop := counts s = true ∧ '/' ∉ s.toList

theorem IsName.isSegment {s : String} (h : IsName s) : IsSegment s := ⟨h.counts, h.2.2.2⟩

/-- A segment that counts and is no step up is a name. -/
theorem IsSegment.isName {s : String} (h : IsSegment s) (hup : s ≠ "..") : IsName s := by
  obtain ⟨hcounts, hslash⟩ := h
  refine ⟨?_, ?_, hup, hslash⟩ <;> rintro rfl <;> cases hcounts

theorem IsSegment.isAbsolute {s : String} (h : IsSegment s) : isAbsolute s = false :=
  isAbsolute_of_not_mem h.2

theorem joinStrings_segments (p : String) : Text.joinStrings "/" (segments p) = p := by
  have hslash : "/".toList = ['/'] := rfl
  have hlists : (segments p).map String.toList = Text.splitOnChar '/' p.toList := by
    simp [segments, Function.comp_def]
  rw [Text.joinStrings, hlists, hslash, Text.join_splitOnChar, String.ofList_toList]

theorem isSegment_of_mem_significant {p s : String} (h : s ∈ significant p) : IsSegment s :=
  ⟨(List.mem_filter.1 h).2, not_mem_of_mem_segments (List.mem_filter.1 h).1⟩

/-- A `.` in front does not count. -/
theorem significant_here (p : String) : significant ("./" ++ p) = significant p := by
  have hsegments : segments ("./" ++ p) = "." :: segments p := segments_slash "." p
  rw [significant, hsegments, List.filter_cons_of_neg (by decide), significant]

/-- The project form of names below a path. -/
def under (base : String) (names : List String) : String :=
  Text.joinStrings "/" (significant base ++ names)

theorem projectForm_names {names : List String} (hnames : ∀ s ∈ names, IsName s) (base : String) :
    projectForm (names.foldl join base) = under base names := by
  rw [projectForm_eq, significant_foldl_join hnames, under]

theorem isSegment_of_mem_under {base s : String} {names : List String}
    (hnames : ∀ s ∈ names, IsName s) (hs : s ∈ significant base ++ names) : IsSegment s :=
  (List.mem_append.1 hs).elim isSegment_of_mem_significant fun hs => (hnames s hs).isSegment

theorem join_ne_empty {p s : String} (hp : isAbsolute p = false) (hs : s ∈ segments p)
    (hne : s ≠ "") (base : String) : join base p ≠ "" := by
  intro hempty
  have hsegments := segments_join base hp
  rw [hempty, segments_empty] at hsegments
  have hmem : s ∈ [""] := hsegments ▸ List.mem_append_right _ hs
  exact hne (List.mem_singleton.1 hmem)

/-! ## Components -/

/-- What an absolute path and one that begins with a `.` have in front of all other components. -/
def lead (p : String) : List Component :=
  if isAbsolute p then [.root] else if (segments p).head? = some "." then [.here] else []

theorem components_eq (p : String) :
    components p = lead p ++ (significant p).filterMap component? := by
  rw [components, significant, List.filterMap_filter]
  refine congrArg (lead p ++ ·) (List.filterMap_congr fun s _ => ?_)
  cases hs : component? s with
  | none => rw [ite_self]
  | some c =>
    rw [counts, hs]
    rfl

/-- Segments that count are no leading components. -/
theorem not_lead_of_mem {c : Component} {ss : List String} (h : c ∈ ss.filterMap component?) :
    c ≠ .root ∧ c ≠ .here := by
  obtain ⟨s, -, hs⟩ := List.mem_filterMap.1 h
  unfold component? at hs
  split at hs
  · cases hs
  · split at hs <;> cases hs <;> exact ⟨nofun, nofun⟩

/-- Without steps up, the segments that count are names. -/
theorem isName_of_up_not_mem {p s : String} (hup : .up ∉ components p) (hs : s ∈ significant p) :
    IsName s := by
  refine (isSegment_of_mem_significant hs).isName ?_
  rintro rfl
  rw [components_eq] at hup
  exact hup (List.mem_append_right _ (List.mem_filterMap.2 ⟨"..", hs, rfl⟩))

theorem filter_filterMap_component (ss : List String) :
    (ss.filterMap component?).filter (· != .here) = ss.filterMap component? :=
  List.filter_eq_self.2 fun _ hc => bne_iff_ne.2 (not_lead_of_mem hc).2

theorem lead_of_isAbsolute {p : String} (h : isAbsolute p = true) : lead p = [.root] := if_pos h

theorem lead_of_not_isAbsolute {p : String} (h : isAbsolute p = false) :
    lead p = [] ∨ lead p = [.here] := by
  rw [lead, h, if_neg Bool.false_ne_true]
  split
  · exact .inr rfl
  · exact .inl rfl

/-- Leaving out the `.` in front. -/
theorem filter_components {p : String} (h : isAbsolute p = false) :
    (components p).filter (· != .here) = (significant p).filterMap component? := by
  rw [components_eq, List.filter_append, filter_filterMap_component]
  rcases lead_of_not_isAbsolute h with hlead | hlead <;> rw [hlead] <;> rfl

/-- What is joined to an absolute path has its components behind those of that path. -/
theorem components_join {base p : String} (hbase : isAbsolute base = true)
    (hp : isAbsolute p = false) :
    components (join base p) = components base ++ (significant p).filterMap component? := by
  rw [components_eq, components_eq base, lead_of_isAbsolute hbase,
    lead_of_isAbsolute ((isAbsolute_join base hp).trans hbase), significant_join base hp,
    List.filterMap_append, List.append_assoc]

theorem dropComponents?_eq_some {base cs rest : List Component} :
    dropComponents? base cs = some rest ↔ cs = base ++ rest := by
  induction base generalizing cs with
  | nil => rw [dropComponents?, Option.some.injEq, List.nil_append]
  | cons b base ih =>
    cases cs with
    | nil => exact ⟨nofun, nofun⟩
    | cons c cs =>
      rw [dropComponents?, List.cons_append, List.cons.injEq]
      split
      · next hbc => rw [ih, hbc, eq_self, true_and]
      · next hbc => exact ⟨nofun, fun h => absurd h.1.symm hbc⟩

theorem startsWith_iff {p base : String} :
    startsWith p base = true ↔ components base <+: components p := by
  rw [startsWith, Option.isSome_iff_exists]
  exact exists_congr fun rest => dropComponents?_eq_some.trans eq_comm

/-! ## Segments with single slashes -/

section Joined

variable {ss : List String} (h : ∀ s ∈ ss, IsSegment s)

include h in
theorem segments_joined :
    segments (Text.joinStrings "/" ss) = if ss = [] then [""] else ss := by
  split
  · next hnil =>
    rw [hnil]
    exact segments_empty
  · next hne => exact segments_joinStrings hne fun s hs => (h s hs).2

include h in
theorem significant_joined : significant (Text.joinStrings "/" ss) = ss := by
  rw [significant, segments_joined h]
  split
  · next hnil =>
    rw [hnil]
    rfl
  · exact List.filter_eq_self.2 fun s hs => (h s hs).1

include h in
theorem head?_segments_joined {s : String}
    (hs : (segments (Text.joinStrings "/" ss)).head? = some s) (hcounts : counts s = false) :
    s = "" ∧ ss = [] := by
  rw [segments_joined h] at hs
  split at hs
  · next hnil => exact ⟨(Option.some.inj hs).symm, hnil⟩
  · rw [(h s (List.mem_of_head? hs)).1] at hcounts
    cases hcounts

include h in
theorem isAbsolute_joined : isAbsolute (Text.joinStrings "/" ss) = false := by
  refine Bool.eq_false_iff.2 fun habs => ?_
  obtain ⟨-, hnil⟩ := head?_segments_joined h (head?_segments_of_isAbsolute habs) rfl
  subst hnil
  cases habs

include h in
/-- Segments that count have no other components than themselves. -/
theorem components_joined :
    components (Text.joinStrings "/" ss) = ss.filterMap component? := by
  have hhere : (segments (Text.joinStrings "/" ss)).head? ≠ some "." := fun hhead =>
    absurd (head?_segments_joined h hhead rfl).1 (by decide)
  rw [components_eq, lead, isAbsolute_joined h, if_neg Bool.false_ne_true, if_neg hhere,
    List.nil_append, significant_joined h]

include h in
/-- One more segment behind them. -/
theorem join_joined {s : String} (hs : IsSegment s) :
    join (Text.joinStrings "/" ss) s = Text.joinStrings "/" (ss ++ [s]) := by
  have hlast : leading (Text.joinStrings "/" ss) = ss := by
    by_cases hnil : ss = []
    · subst hnil
      exact congrArg List.dropLast segments_empty
    · have hsegments := (segments_joined h).trans (if_neg hnil)
      have hempty : "" ∉ segments (Text.joinStrings "/" ss) := fun hmem => by
        rw [hsegments] at hmem
        cases (h "" hmem).1
      rw [leading, if_neg, hsegments]
      rintro (hbase | hslash)
      · rw [hbase, segments_empty] at hempty
        exact hempty List.mem_cons_self
      · obtain ⟨b, -, hb⟩ := exists_of_getLast? hslash
        rw [hb] at hempty
        exact hempty (List.mem_append_right _ List.mem_cons_self)
  rw [← joinStrings_segments (join _ s), segments_join _ hs.isAbsolute, hlast,
    segments_of_not_mem hs.2]

end Joined

section Under

variable {names : List String} (hnames : ∀ s ∈ names, IsName s) (base : String)

include hnames in
theorem segments_under (hne : names ≠ []) :
    segments (under base names) = significant base ++ names := by
  rw [under, segments_joined fun s hs => isSegment_of_mem_under hnames hs, if_neg]
  exact List.append_ne_nil_of_right_ne_nil _ hne

include hnames in
theorem isAbsolute_under : isAbsolute (under base names) = false :=
  isAbsolute_joined fun _ hs => isSegment_of_mem_under hnames hs

end Under

/-- Segments that count, put together component by component. -/
theorem ofComponents_filterMap {ss : List String} (h : ∀ s ∈ ss, IsSegment s) :
    ofComponents (ss.filterMap component?) = Text.joinStrings "/" ss := by
  induction ss using List.reverseRecOn with
  | nil => rfl
  | append_singleton ss s ih =>
    obtain ⟨hss, hs⟩ := List.forall_mem_append.1 h
    have hs := hs s List.mem_cons_self
    obtain ⟨c, hc⟩ := Option.isSome_iff_exists.1 hs.1
    rw [List.filterMap_append, List.filterMap_cons_some hc, List.filterMap_nil, ofComponents,
      List.foldl_append, ← ofComponents, ih hss, ← join_joined hss hs, List.foldl_cons,
      List.foldl_nil]
    refine congrArg (join (Text.joinStrings "/" ss)) ?_
    unfold component? at hc
    split at hc
    · cases hc
    · split at hc
      · next hup =>
        cases hc
        exact hup.symm
      · cases hc
        rfl

end ColumnMetadata.Path
