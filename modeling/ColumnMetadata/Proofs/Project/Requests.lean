import ColumnMetadata.Proofs.Project.Graph
import Mathlib.Data.List.Perm.Basic

/-!
# What becomes of the files that were asked for

Each file that was asked for is disposed of once: either an issue says that it defines no action or
that it could not be loaded, or it is the file of a requested node (`GraphBuild.Settled`,
`GraphBuild.settled_run`). Linking the nodes adds no issue of this kind.
-/

namespace ColumnMetadata

namespace GraphIssue

variable {ε : Type}

/-- The file that was asked for and has no node because of an issue. -/
def settled? : GraphIssue ε → Option String
  | descriptorMissing file | loadFailed file true _ => some file
  | dependencyUnresolved _ _ | loadFailed _ false _ => none

/-- What an issue says of a file that was asked for. -/
def Holds {α : Type} (p : CompiledProject) (loader : Nat → ActionDescriptor → Except ε α) :
    GraphIssue ε → Prop
  | descriptorMissing file => p.actionOf? file = none
  | loadFailed file true e => ∃ d i, p.actionOf? file = some d ∧ loader i d = .error e
  | dependencyUnresolved _ _ | loadFailed _ false _ => True

end GraphIssue

namespace GraphBuild

variable {α ε : Type} {loader : Nat → ActionDescriptor → Except ε α} {p : CompiledProject}
  {files : List String} {b b' : GraphBuild α ε}

/-- What holds when some files have been asked for: each of them is disposed of once, and the issues
are right. -/
structure Settled (p : CompiledProject) (loader : Nat → ActionDescriptor → Except ε α)
    (files : List String) (b : GraphBuild α ε) : Prop where
  partition : (b.issues.filterMap GraphIssue.settled? ++ b.requestedFiles).Perm files
  holds : ∀ i ∈ b.issues, i.Holds p loader

theorem settled_empty : (empty : GraphBuild α ε).Settled p loader [] := ⟨.nil, nofun⟩

section Settled

variable (h : b.Settled p loader files)

include h in
/-- One more issue, with the file that it disposes of. -/
theorem Settled.issue {i : GraphIssue ε} (hi : i.Holds p loader)
    (hissues : b'.issues = b.issues ++ [i]) (hrequested : b'.requestedFiles = b.requestedFiles) :
    b'.Settled p loader (files ++ i.settled?.toList) where
  partition := by
    rw [hissues, hrequested, List.filterMap_append, List.append_assoc]
    refine (List.Perm.append_left _ List.perm_append_comm).trans ?_
    rw [← List.append_assoc]
    refine h.partition.append (.of_eq ?_)
    cases hs : i.settled? with
    | none => rw [List.filterMap_cons_none hs]; rfl
    | some file => rw [List.filterMap_cons_some hs]; rfl
  holds := hissues ▸ List.forall_mem_append.2 ⟨h.holds, List.forall_mem_singleton.2 hi⟩

include h in
/-- An issue that does not concern a file that was asked for. -/
theorem Settled.issue_outside {i : GraphIssue ε} (hi : i.Holds p loader) (hnone : i.settled? = none)
    (hissues : b'.issues = b.issues ++ [i]) (hrequested : b'.requestedFiles = b.requestedFiles) :
    b'.Settled p loader files := by
  have hb := h.issue hi hissues hrequested
  rwa [hnone, Option.toList_none, List.append_nil] at hb

include h in
theorem Settled.load_outside (d : ActionDescriptor) :
    (b.load loader false d).Settled p loader files := by
  unfold load
  split
  · next content _ =>
    refine ⟨?_, h.holds⟩
    rw [requestedFiles_push, if_neg Bool.false_ne_true, List.append_nil]
    exact h.partition
  · exact h.issue_outside (i := .loadFailed d.fileName false _) trivial rfl rfl rfl

include h in
/-- Asking for one more file. -/
theorem Settled.request (file : String) :
    (b.request p loader file).Settled p loader (files ++ [file]) := by
  unfold GraphBuild.request
  split
  · next hnone => exact h.issue (i := .descriptorMissing file) hnone rfl rfl
  · next d hd =>
    unfold load
    have hname := mem_of_actionOf? hd
    split
    · refine ⟨?_, h.holds⟩
      rw [requestedFiles_push, if_pos rfl, hname, ← List.append_assoc]
      exact h.partition.append_right [file]
    · next e he =>
      exact h.issue (i := .loadFailed file true e) ⟨d, _, hd, he⟩ (by rw [← hname]; rfl) rfl

include h in
theorem Settled.requests (more : List String) :
    (more.foldl (GraphBuild.request p loader) b).Settled p loader (files ++ more) := by
  induction more generalizing b files with
  | nil => rwa [List.append_nil]
  | cons file more ih =>
    have hnext := ih (h.request file)
    rwa [List.append_assoc] at hnext

include h in
theorem Settled.setDependencies (id : Nat) (found : List Nat) : Settled p loader files
    { b with nodes := b.nodes.modify id fun n => { n with dependencies := found } } where
  partition := by
    have hrequested := map_filter_modify
      (f := fun n : GraphNode α => { n with dependencies := found }) (p := GraphNode.requested)
      (q := fun n => n.action.fileName) (fun _ => rfl) (fun _ => rfl) b.nodes id
    rw [requestedFiles, hrequested]
    exact h.partition
  holds := h.holds

include h in
theorem Settled.link (index : TargetIndex) (id : Nat) :
    (b.link index loader id).Settled p loader files := by
  unfold GraphBuild.link
  split
  · exact h
  · next n _ =>
    have hnote : ∀ (b : GraphBuild α ε) t, b.Settled p loader files →
        (b.note (.dependencyUnresolved n.action.fileName t)).Settled p loader files :=
      fun _ t hb =>
        hb.issue_outside (i := .dependencyUnresolved n.action.fileName t) trivial rfl rfl rfl
    exact (follow_induction n.action.fileName hnote (fun _ d hb _ _ => hb.load_outside d)
      h n.action.dependencyTargets []).setDependencies id _

include h in
theorem Settled.links (index : TargetIndex) (ids : List Nat) :
    (ids.foldl (GraphBuild.link index loader) b).Settled p loader files := by
  induction ids generalizing b with
  | nil => exact h
  | cons id ids ih => exact ih (h.link index id)

end Settled

/-- In every graph that is built, each of the given files is disposed of once. -/
theorem settled_run (p : CompiledProject) (files : List String)
    (loader : Nat → ActionDescriptor → Except ε α) :
    (run p files loader).Settled p loader files.eraseDups :=
  (settled_empty.requests files.eraseDups).links (.ofProject p) _

end GraphBuild

end ColumnMetadata
