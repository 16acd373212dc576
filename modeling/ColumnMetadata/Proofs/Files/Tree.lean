import ColumnMetadata.Files.Tree
import ColumnMetadata.Proofs.Basic
import ColumnMetadata.Proofs.Entries
import ColumnMetadata.Proofs.Files.Path

/-!
# What stands where in a file tree

A tree is seen by looking at its places (`Node.look`): nothing, a directory, or a file with its
content. Following a path depends on nothing else, and replacing a file changes what is seen at one
place (`Node.look_put`), which is the place that the path leads to (`FileTree.replaceText_eq_ok`).
-/

namespace ColumnMetadata

namespace Node

/-- The content of a file; a directory has none. -/
def content? : Node → Option Content
  | file c => some c
  | directory _ => none

/-- What stands at a list of names below a node: nothing, a directory, or a file's content. -/
def look (names : List String) (n : Node) : Option (Option Content) :=
  (at? names n).map content?

theorem look_nil (n : Node) : look [] n = some n.content? := by
  cases n <;> rfl

theorem at?_append (a b : List String) (n : Node) : at? (a ++ b) n = (at? a n).bind (at? b) := by
  induction a generalizing n with
  | nil => simp [at?]
  | cons name a ih =>
    cases n with
    | file c => rfl
    | directory es =>
      rw [List.cons_append, at?, at?]
      cases Entries.find? name es with
      | none => rfl
      | some m => exact ih m

theorem at?_file (c : Content) {names : List String} (h : names ≠ []) :
    at? names (file c) = none := by
  cases names with
  | nil => exact absurd rfl h
  | cons => rfl

theorem look_file (c : Content) {names : List String} (h : names ≠ []) :
    look names (file c) = none := by
  rw [look, at?_file c h]
  rfl

theorem look_cons_directory (name : String) (names : List String) (es : List (String × Node)) :
    look (name :: names) (directory es) = (Entries.find? name es).bind (look names) := by
  rw [look, at?]
  cases Entries.find? name es <;> rfl

/-- What stands below a place stands below a directory. -/
theorem look_of_look_append {a b : List String} {n : Node} (hb : b ≠ [])
    (h : (look (a ++ b) n).isSome = true) : look a n = some none := by
  rw [look, at?_append] at h
  unfold look
  cases ha : at? a n with
  | none =>
    rw [ha] at h
    cases h
  | some m =>
    cases m with
    | file c =>
      rw [ha, Option.bind_some, at?_file c hb] at h
      cases h
    | directory es => rfl

/-- Nothing stands below a place where no directory stands. -/
theorem look_append_eq_none {a b : List String} {n : Node} (hb : b ≠ [])
    (h : look a n ≠ some none) : look (a ++ b) n = none := by
  refine Option.not_isSome_iff_eq_none.1 fun hsome => ?_
  exact h (look_of_look_append hb hsome)

/-- A node without anything below it that is put where no directory stands is seen there, and all
else is seen as before. -/
theorem look_put {m : Node} (hm : ∀ q, q ≠ [] → look q m = none) {names : List String} {n : Node}
    (hne : names ≠ []) (hparent : look names.dropLast n = some none)
    (hplace : look names n ≠ some none) (q : List String) :
    look q (put m names n) = if q = names then some m.content? else look q n := by
  induction names generalizing n q with
  | nil => exact absurd rfl hne
  | cons name names ih =>
    obtain ⟨es, rfl⟩ : ∃ es, n = directory es := by
      cases n with
      | directory es => exact ⟨es, rfl⟩
      | file d =>
        cases names with
        | nil => cases hparent
        | cons => cases hparent
    cases q with
    | nil => rfl
    | cons first q =>
      rw [put]
      by_cases hfirst : first = name
      · subst hfirst
        simp only [look_cons_directory, Entries.find?_insert_self, Option.bind_some,
          List.cons.injEq, true_and] at hplace hparent ⊢
        cases names with
        | nil =>
          cases q with
          | nil => exact look_nil m
          | cons second q =>
            have hnone := look_append_eq_none (b := second :: q) (List.cons_ne_nil _ _)
              (look_cons_directory first [] es ▸ hplace)
            rw [if_neg (List.cons_ne_nil _ _), ← look_cons_directory]
            exact (hm _ (List.cons_ne_nil _ _)).trans hnone.symm
        | cons second names =>
          rw [List.dropLast_cons_of_ne_nil (List.cons_ne_nil _ _), look_cons_directory] at hparent
          obtain ⟨m, hm, hparent⟩ := Option.bind_eq_some_iff.1 hparent
          rw [hm, Option.bind_some] at hplace
          rw [hm, Option.getD_some, Option.bind_some]
          exact ih (List.cons_ne_nil _ _) hparent hplace q
      · rw [look_cons_directory, look_cons_directory, Entries.find?_insert_of_ne (Ne.symm hfirst),
          if_neg fun he => hfirst (List.cons.inj he).1]

end Node

namespace FileTree

open Node (look)

variable {top top' : Node}

/-! ## Following a path -/

theorem follow_cons (at_ : List String) (s : Step) (steps : List Step) :
    follow top at_ (s :: steps) =
      match look at_ top with
      | none => .error .notFound
      | some (some _) => .error .notADirectory
      | some none =>
        match s with
        | .stay => follow top at_ steps
        | .up => follow top at_.dropLast steps
        | .down name => follow top (at_ ++ [name]) steps := by
  rw [follow.eq_def, look]
  dsimp only
  cases top.at? at_ with
  | none => rfl
  | some n =>
    cases n with
    | file c => rfl
    | directory es => cases s <;> rfl

/-- Each step starts in a directory. -/
theorem look_of_follow_cons {at_ names : List String} {s : Step} {steps : List Step}
    (h : follow top at_ (s :: steps) = .ok names) : look at_ top = some none := by
  rw [follow_cons] at h
  split at h
  · cases h
  · cases h
  · next hlook => exact hlook

/-- A path leads to the same place as long as no directory is lost. -/
theorem follow_mono (hdirectories : ∀ q, look q top = some none → look q top' = some none)
    {at_ names : List String} {steps : List Step} (h : follow top at_ steps = .ok names) :
    follow top' at_ steps = .ok names := by
  induction steps generalizing at_ with
  | nil =>
    cases h
    rfl
  | cons s steps ih =>
    have hlook := look_of_follow_cons h
    rw [follow_cons, hlook] at h
    rw [follow_cons, hdirectories _ hlook]
    cases s with
    | stay => exact ih h
    | up => exact ih h
    | down name => exact ih h

theorem follow_append (at_ : List String) (steps more : List Step) :
    follow top at_ (steps ++ more) = follow top at_ steps >>= fun names => follow top names more := by
  induction steps generalizing at_ with
  | nil => rfl
  | cons s steps ih =>
    rw [List.cons_append, follow_cons, follow_cons]
    split
    · rfl
    · rfl
    · cases s <;> exact ih _

/-- Going down appends the names. -/
theorem eq_append_of_follow_down {at_ names down : List String}
    (h : follow top at_ (down.map .down) = .ok names) : names = at_ ++ down := by
  induction down generalizing at_ with
  | nil =>
    cases h
    rw [List.append_nil]
  | cons name down ih =>
    have hlook := look_of_follow_cons h
    rw [List.map_cons, follow_cons, hlook] at h
    rw [ih h, List.append_assoc, List.singleton_append]

/-- A path that ends in a slash leads to a directory. -/
theorem look_of_follow_stay {at_ names : List String} {steps : List Step}
    (h : follow top at_ (steps ++ [.stay]) = .ok names) : look names top = some none := by
  rw [follow_append] at h
  obtain ⟨names', -, h⟩ := bind_eq_ok.1 h
  have hlook := look_of_follow_cons h
  rw [follow_cons, hlook] at h
  cases h
  exact hlook

/-! ## Places of files -/

theorem steps_ne_nil (p : String) : steps p ≠ [] := by
  unfold steps Path.segments
  rw [ne_eq, List.map_eq_nil_iff, List.map_eq_nil_iff]
  exact Text.splitOnChar_ne_nil _ _

/-- A path that leads to a file has no slash at its end, and the file has a name. -/
theorem of_locate_file {t : FileTree} {p : String} {names : List String} {c : Content}
    (h : t.locate p = .ok names) (hfile : look names t.top = some (some c)) :
    p.toList.getLast? ≠ some '/' ∧ names ≠ [] := by
  unfold locate at h
  split at h
  · cases h
  · refine ⟨fun hslash => ?_, ?_⟩
    · obtain ⟨b, -, hsegments⟩ := Path.exists_of_getLast? hslash
      have hsteps : ∃ steps', steps p = steps' ++ [.stay] :=
        ⟨_, by rw [steps, hsegments, List.map_append]; rfl⟩
      obtain ⟨steps', hsteps⟩ := hsteps
      rw [hsteps] at h
      rw [look_of_follow_stay h] at hfile
      cases hfile
    · rintro rfl
      obtain ⟨s, rest, hsteps⟩ := List.exists_cons_of_ne_nil (steps_ne_nil p)
      rw [hsteps] at h
      have hstart := look_of_follow_cons h
      have htop : look [] t.top = some none := by
        generalize (if Path.isAbsolute p = true then [] else t.workingDirectory) = at_ at hstart
        cases at_ with
        | nil => exact hstart
        | cons a at_ => exact Node.look_of_look_append (a := []) (List.cons_ne_nil a at_) (hstart ▸ rfl)
      rw [htop] at hfile
      cases hfile

theorem look_dropLast {names : List String} (hne : names ≠ [])
    (h : (look names top).isSome = true) : look names.dropLast top = some none := by
  rw [← List.dropLast_concat_getLast hne] at h
  exact Node.look_of_look_append (List.cons_ne_nil _ _) h

theorem node_of_locate {t : FileTree} {p : String} {names : List String}
    (h : t.locate p = .ok names) : t.node p =
      match t.top.at? names with
      | some n => .ok n
      | none => .error .notFound := by
  rw [node, h]
  rfl

/-- What is read at a place depends on what is seen there. -/
theorem readText_of_locate {t : FileTree} {p : String} {names : List String}
    (h : t.locate p = .ok names) : t.readText p =
      match look names t.top with
      | none => .error .notFound
      | some none => .error .isADirectory
      | some (some (.bytes _)) => .error .notText
      | some (some (.text s)) => .ok s := by
  rw [readText, node_of_locate h, look]
  cases t.top.at? names with
  | none => rfl
  | some n =>
    cases n with
    | directory es => rfl
    | file c => cases c <;> rfl

theorem readText_eq_ok {t : FileTree} {p s : String} :
    t.readText p = .ok s ↔
      ∃ names, t.locate p = .ok names ∧ look names t.top = some (some (.text s)) := by
  cases hp : t.locate p with
  | error e =>
    rw [readText, node, hp]
    exact ⟨nofun, nofun⟩
  | ok names =>
    rw [readText_of_locate hp]
    constructor
    · intro h
      split at h
      · cases h
      · cases h
      · cases h
      · next hlook =>
        cases h
        exact ⟨names, rfl, hlook⟩
    · rintro ⟨names', he, hlook⟩
      cases he
      rw [hlook]

/-- What may be written is at the place that the path leads to, in a directory. -/
theorem writable_eq_ok {t : FileTree} {p : String} {names : List String}
    (h : t.writable p = .ok names) :
    t.locate p = .ok names ∧ names ≠ [] ∧ look names.dropLast t.top = some none := by
  obtain ⟨names', hlocate, h⟩ := bind_eq_ok.1 h
  cases hslash : p.toList.getLast? == some '/' with
  | true =>
    rw [hslash] at h
    split at h <;> cases h
  | false =>
    rw [hslash] at h hlocate
    simp only [Bool.false_eq_true, if_false, Bool.false_or] at h hlocate
    split at h
    · cases h
    · cases h
    · next hparent =>
      split at h
      · cases h
      · next hne =>
        cases h
        refine ⟨hlocate, fun hnil => hne (hnil ▸ rfl), ?_⟩
        rw [look, hparent]
        rfl

/-- A file is replaced in a directory, at the place that the path leads to and where nothing is
refused. -/
theorem replaceText_eq_ok {refused : Refusals} {t t' : FileTree} {p s : String}
    (h : t.replaceText refused p s = .ok t') :
    ∃ names, t.locate p = .ok names ∧ refused names = none ∧ names ≠ [] ∧
      look names.dropLast t.top = some none ∧ look names t.top ≠ some none ∧
      t' = { t with top := Node.put (.file (.text s)) names t.top } := by
  obtain ⟨names, hnames, h⟩ := bind_eq_ok.1 h
  obtain ⟨hlocate, hne, hparent⟩ := writable_eq_ok hnames
  split at h
  · cases h
  · next hfree =>
    obtain ⟨names', hnames', h⟩ := bind_eq_ok.1 h
    rw [hnames] at hnames'
    cases hnames'
    split at h
    · cases h
    · next hnot =>
      cases h
      refine ⟨names, hlocate, hfree, hne, hparent, fun hdirectory => ?_, rfl⟩
      obtain ⟨n, hn, he⟩ := Option.map_eq_some_iff.1 hdirectory
      cases n with
      | file c => cases he
      | directory es => exact hnot es hn

theorem exists_entries_of_look {names : List String} (h : look names top = some none) :
    ∃ es, top.at? names = some (.directory es) := by
  obtain ⟨n, hn, hcontent⟩ := Option.map_eq_some_iff.1 h
  cases n with
  | file c => cases hcontent
  | directory es => exact ⟨es, hn⟩

/-- Where a file stands it is replaced, unless the system refuses. -/
theorem replaceText_of_file {t : FileTree} {p : String} {names : List String} {c : Content}
    (h : t.locate p = .ok names) (hfile : look names t.top = some (some c)) (refused : Refusals)
    (s : String) : t.replaceText refused p s = match refused names with
      | some cause => .error cause
      | none => .ok { t with top := Node.put (.file (.text s)) names t.top } := by
  obtain ⟨hslash, hne⟩ := of_locate_file h hfile
  obtain ⟨es, hparent⟩ := exists_entries_of_look (look_dropLast hne (by rw [hfile]; rfl))
  have hwritable : t.writable p = .ok names := by
    have hempty : names.isEmpty = false := Bool.eq_false_iff.2 fun he => hne (List.isEmpty_iff.1 he)
    rw [writable, beq_eq_false_iff_ne.2 hslash]
    refine bind_eq_ok.2 ⟨names, h, ?_⟩
    simp [hparent, hempty]
  have hwrite : t.writeText p s = .ok { t with top := Node.put (.file (.text s)) names t.top } := by
    rw [writeText]
    refine bind_eq_ok.2 ⟨names, hwritable, ?_⟩
    split
    · next hdirectory =>
      rw [look, hdirectory] at hfile
      cases hfile
    · rfl
  rw [replaceText, hwritable, hwrite]
  rfl

/-! ## Trees with the same directories -/

/-- Two trees in which the same places are directories. -/
structure SameDirectories (t u : FileTree) : Prop where
  workingDirectory : u.workingDirectory = t.workingDirectory
  look : ∀ q, look q u.top = some none ↔ look q t.top = some none

namespace SameDirectories

theorem refl (t : FileTree) : SameDirectories t t := ⟨rfl, fun _ => .rfl⟩

theorem symm {t u : FileTree} (h : SameDirectories t u) : SameDirectories u t :=
  ⟨h.workingDirectory.symm, fun q => (h.look q).symm⟩

theorem trans {t u v : FileTree} (h : SameDirectories t u) (h' : SameDirectories u v) :
    SameDirectories t v :=
  ⟨h'.workingDirectory.trans h.workingDirectory, fun q => (h'.look q).trans (h.look q)⟩

/-- A path leads to the same place. -/
theorem locate {t u : FileTree} (h : SameDirectories t u) {p : String} {names : List String}
    (hp : t.locate p = .ok names) : u.locate p = .ok names := by
  unfold FileTree.locate at hp ⊢
  split at hp
  · cases hp
  · next hempty =>
    rw [if_neg hempty, h.workingDirectory]
    exact follow_mono (fun q => (h.look q).2) hp

end SameDirectories

/-- What is seen behind the replacement of a file: the text where the path leads to, and all else as
before. -/
theorem look_of_replaceText {refused : Refusals} {t t' : FileTree} {p s : String}
    (h : t.replaceText refused p s = .ok t') :
    SameDirectories t t' ∧ ∃ names, t.locate p = .ok names ∧ refused names = none ∧
      ∀ q, look q t'.top = if q = names then some (some (.text s)) else look q t.top := by
  obtain ⟨names, hlocate, hfree, hne, hparent, hplace, rfl⟩ := replaceText_eq_ok h
  have hput := Node.look_put (m := .file (.text s)) (fun _ => Node.look_file _) hne hparent hplace
  refine ⟨⟨rfl, fun q => ?_⟩, names, hlocate, hfree, hput⟩
  rw [hput]
  split
  · next hq =>
    subst hq
    exact ⟨nofun, fun hdirectory => absurd hdirectory hplace⟩
  · rfl

end FileTree

end ColumnMetadata
