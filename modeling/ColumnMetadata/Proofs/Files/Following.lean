import ColumnMetadata.Proofs.Files.Components
import ColumnMetadata.Proofs.Files.Tree

/-!
# Following joined paths

A segment that does not count asks to stay in a directory, so what a path leads to is where its
segments that count lead (`FileTree.follow_significant`). Names lead down to what stands below a
place (`FileTree.follow_down`). Together: a path that is put together from segments that lead to a
directory and names leads to what stands under these names (`FileTree.at?_of_follow_joined`).
-/

namespace ColumnMetadata.FileTree

open Node (look)

variable {top : Node}

/-- What a segment of a path asks for. -/
def stepOf (s : String) : Step :=
  if s = "" ∨ s = "." then .stay else if s = ".." then .up else .down s

theorem stepOf_of_not_counts {s : String} (h : Path.counts s = false) : stepOf s = .stay := by
  unfold Path.counts Path.component? at h
  unfold stepOf
  split at h
  · next hs => rw [if_pos hs]
  · split at h <;> cases h

theorem map_stepOf {names : List String} (h : ∀ s ∈ names, Path.IsName s) :
    names.map stepOf = names.map .down := by
  refine List.map_congr_left fun s hs => ?_
  obtain ⟨hempty, hhere, hup, -⟩ := h s hs
  rw [stepOf, if_neg (by simp [hempty, hhere]), if_neg hup]

/-- Segments that do not count may be left out. -/
theorem follow_filter {at_ place : List String} {ss : List String}
    (h : follow top at_ (ss.map stepOf) = .ok place) :
    follow top at_ ((ss.filter Path.counts).map stepOf) = .ok place := by
  induction ss generalizing at_ with
  | nil => exact h
  | cons s ss ih =>
    have hlook := look_of_follow_cons h
    rw [List.map_cons, follow_cons, hlook] at h
    cases hs : Path.counts s with
    | false =>
      rw [stepOf_of_not_counts hs] at h
      rw [List.filter_cons_of_neg (by rw [hs]; exact nofun)]
      exact ih h
    | true =>
      rw [List.filter_cons_of_pos hs, List.map_cons, follow_cons, hlook]
      cases hstep : stepOf s with
      | stay =>
        rw [hstep] at h
        exact ih h
      | up =>
        rw [hstep] at h
        exact ih h
      | down name =>
        rw [hstep] at h
        exact ih h

/-- A path leads where its segments that count lead. -/
theorem follow_significant {at_ place : List String} {p : String}
    (h : follow top at_ ((Path.segments p).map stepOf) = .ok place) :
    follow top at_ ((Path.significant p).map stepOf) = .ok place := follow_filter h

/-- The segments that a path gives to those that are joined to it lead where it leads. -/
theorem follow_leading {at_ place : List String} {p : String}
    (h : follow top at_ ((Path.segments p).map stepOf) = .ok place) :
    follow top at_ ((Path.leading p).map stepOf) = .ok place := by
  unfold Path.leading
  split
  · next hp =>
    obtain ⟨ss, hss⟩ : ∃ ss, Path.segments p = ss ++ [""] := by
      rcases hp with rfl | hslash
      · exact ⟨[], Path.segments_empty⟩
      · obtain ⟨b, -, hb⟩ := Path.exists_of_getLast? hslash
        exact ⟨_, hb⟩
    rw [hss, List.map_append, follow_append] at h
    obtain ⟨place', hplace', hstay⟩ := bind_eq_ok.1 h
    rw [hss, List.dropLast_concat, hplace']
    have hlook := look_of_follow_cons hstay
    rw [List.map_singleton, follow_cons, hlook] at hstay
    exact hstay
  · exact h

/-- Names lead down to what stands below a place. -/
theorem follow_down {base names : List String} (h : (look (base ++ names) top).isSome = true) :
    follow top base (names.map .down) = .ok (base ++ names) := by
  induction names generalizing base with
  | nil => rw [List.map_nil, follow, List.append_nil]
  | cons name names ih =>
    have hbase := Node.look_of_look_append (List.cons_ne_nil name names) h
    rw [List.append_cons] at h
    rw [List.map_cons, follow_cons, hbase, List.append_cons]
    exact ih h

/-- What names lead down to, if anything. -/
theorem at?_of_follow_down (base names : List String) :
    ((follow top base (names.map .down)).toOption.bind fun place => top.at? place) =
      top.at? (base ++ names) := by
  cases hat : top.at? (base ++ names) with
  | some n =>
    have hlook : (look (base ++ names) top).isSome = true := by
      rw [look, hat]
      rfl
    rw [follow_down hlook]
    exact hat
  | none =>
    cases hplace : follow top base (names.map .down) with
    | error e => rfl
    | ok place =>
      rw [eq_append_of_follow_down hplace]
      exact hat

/-- What stands under names below the directory that some segments lead to. -/
theorem at?_of_follow_joined {at_ base ups names : List String}
    (hups : ∀ s ∈ ups, Path.IsSegment s) (hnames : ∀ s ∈ names, Path.IsName s)
    (h : follow top at_ (ups.map stepOf) = .ok base) (hbase : look base top = some none) :
    ((follow top at_ ((Path.segments (Text.joinStrings "/" (ups ++ names))).map
      stepOf)).toOption.bind fun place => top.at? place) = top.at? (base ++ names) := by
  have hsegments : ∀ s ∈ ups ++ names, Path.IsSegment s :=
    List.forall_mem_append.2 ⟨hups, fun s hs => (hnames s hs).isSegment⟩
  rw [Path.segments_joined hsegments]
  split
  · next hnil =>
    obtain ⟨rfl, rfl⟩ := List.append_eq_nil_iff.1 hnil
    cases h
    have hstay : stepOf "" = .stay := rfl
    rw [List.map_singleton, hstay, follow_cons, hbase, List.append_nil]
    rfl
  · rw [List.map_append, follow_append, h, map_stepOf hnames]
    exact at?_of_follow_down base names

/-! ## Paths joined to a root -/

theorem toOption_node_of_locate {t : FileTree} {p : String} {place : List String}
    (h : t.locate p = .ok place) : (t.node p).toOption = t.top.at? place := by
  rw [node_of_locate h]
  cases t.top.at? place <;> rfl

theorem toOption_node (t : FileTree) (p : String) :
    (t.node p).toOption = (t.locate p).toOption.bind fun place => t.top.at? place := by
  cases hp : t.locate p with
  | error e =>
    rw [node, hp]
    rfl
  | ok place => exact toOption_node_of_locate hp

/-- Where a root leads, with a directory expected behind it. -/
def entrance (t : FileTree) (root : String) : Except FileError (List String) :=
  follow t.top (if Path.isAbsolute root then [] else t.workingDirectory)
    ((Path.leading root).map stepOf)

/-- A path that is joined to a root is followed from where the root leads. -/
theorem locate_join (t : FileTree) (root : String) {p : String} (hp : Path.isAbsolute p = false)
    (hne : Path.join root p ≠ "") : t.locate (Path.join root p) =
      t.entrance root >>= fun at_ => follow t.top at_ ((Path.segments p).map stepOf) := by
  have hsteps : steps (Path.join root p) =
      (Path.leading root).map stepOf ++ (Path.segments p).map stepOf := by
    rw [← List.map_append, ← Path.segments_join root hp]
    rfl
  rw [locate, if_neg hne, Path.isAbsolute_join root hp, hsteps, follow_append]
  rfl

/-- What is at a path that is joined to a root, when the root leads to a place. -/
theorem toOption_node_join {t : FileTree} {root p : String} {at_ : List String}
    (hroot : t.entrance root = .ok at_) (hp : Path.isAbsolute p = false)
    (hne : Path.join root p ≠ "") : (t.node (Path.join root p)).toOption =
      (follow t.top at_ ((Path.segments p).map stepOf)).toOption.bind
        fun place => t.top.at? place := by
  rw [toOption_node, locate_join t root hp hne, hroot]
  rfl

end ColumnMetadata.FileTree
