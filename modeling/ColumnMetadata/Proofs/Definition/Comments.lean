import ColumnMetadata.Proofs.Definition.Block
import ColumnMetadata.Proofs.Literal.Shifting
import ColumnMetadata.Text.Search

/-!
# A comment in front of a definition

The keyword of a block is looked for in the characters of a text, comments included. So a comment in
front of a text moves the block of the text back by its length exactly as long as no block opens
among its own characters; where one does, that one is located, and the block of the text is not
(`Block.locate_behind_comment`).
-/

namespace ColumnMetadata

/-- A comment: between `/*` and the first `*/` behind it, or from `--` or `//` to the end of its
line. -/
inductive IsComment : List Char → Prop
  | block {body : List Char} (h : Text.containsText ['*', '/'] body = false) :
    IsComment (['/', '*'] ++ body ++ ['*', '/'])
  | line {mark body : List Char} (hmark : mark = ['-', '-'] ∨ mark = ['/', '/'])
    (h : '\n' ∉ body) : IsComment (mark ++ body ++ ['\n'])

/-- No word runs over the end of a comment. -/
theorem IsComment.getLast?_any {c : List Char} (h : IsComment c) :
    c.getLast?.any Text.isIdentifier = false := by
  cases h with
  | block _ =>
    rw [List.getLast?_append_of_ne_nil _ (List.cons_ne_nil _ _)]
    rfl
  | line _ _ =>
    rw [List.getLast?_append_of_ne_nil _ (List.cons_ne_nil _ _)]
    rfl

namespace Block

open Literal

/-! ## Where a block opens -/

/-- Whether a block opens at a character of the first part of a text. -/
def opensIn (previous : Option Char) : List Char → List Char → Bool
  | [], _ => false
  | c :: front, t => (opens? previous (c :: front ++ t)).isSome || opensIn (some c) front t

/-- Behind a character that is not part of a word, a block opens where it does without it. -/
theorem opening?_behind {previous : Option Char} (h : previous.any Text.isIdentifier = false)
    (cs : List Char) : opening? previous cs = opening? none cs := by
  cases cs with
  | nil => rfl
  | cons c cs => simp only [opening?, opens?, h, Option.any_none]

/-- Where no block opens in the first part of a text, it opens where it does in the rest. -/
theorem opening?_append {previous : Option Char} {front : List Char} (t : List Char)
    (h : opensIn previous front t = false) :
    opening? previous (front ++ t) =
      (opening? (front.getLast?.or previous) t).map fun p => (front ++ p.1, p.2) := by
  induction front generalizing previous with
  | nil => simp
  | cons c front ih =>
    rw [opensIn, Bool.or_eq_false_iff, Option.isSome_eq_false_iff, Option.isNone_iff_eq_none] at h
    have hlast : (c :: front).getLast?.or previous = front.getLast?.or (some c) := by
      cases front with
      | nil => rfl
      | cons d front => simp [List.getLast?_cons]
    rw [List.cons_append] at h
    rw [List.cons_append, opening?, h.1]
    dsimp only
    rw [ih h.2, hlast, Option.map_map]
    rfl

/-- Where a block opens in the first part of a text, the first one opens there. -/
theorem exists_opening_of_opensIn {previous : Option Char} {front t : List Char}
    (h : opensIn previous front t = true) :
    ∃ before gap rest, opening? previous (front ++ t) = some (before, gap, rest) ∧
      Text.bytes before < Text.bytes front := by
  induction front generalizing previous with
  | nil => cases h
  | cons c front ih =>
    have hc := c.utf8Size_pos
    rw [List.cons_append, opening?]
    rw [opensIn, Bool.or_eq_true, List.cons_append] at h
    cases hopens : opens? previous (c :: (front ++ t)) with
    | some p => exact ⟨[], p.1, p.2, rfl, by rw [Text.bytes_nil, Text.bytes_cons]; omega⟩
    | none =>
      rw [hopens] at h
      obtain ⟨before, gap, rest, hopening, hbytes⟩ := ih (h.resolve_left Bool.false_ne_true)
      refine ⟨c :: before, gap, rest, ?_, Nat.add_lt_add_left hbytes _⟩
      dsimp only
      rw [hopening]
      rfl

/-! ## Where it is closed -/

theorem closing_shift (k : Nat) (e : Ending) (opened depth : Nat) (ts : List Token) :
    closing (shiftResult k (k + ·) e) (k + opened) depth (ts.map (Token.shift k)) =
      shiftResult k (k + ·) (closing e opened depth ts) := by
  induction ts generalizing depth with
  | nil =>
    cases e with
    | error e => rfl
    | ok stop => rfl
  | cons t ts ih =>
    rw [List.map_cons, closing, closing]
    dsimp only [Token.shift]
    split
    · exact ih _
    · split
      · rfl
      · exact ih _
    · exact ih _

/-- A block behind other characters. -/
def behind (front : List Char) (b : Block) : Block := { b with before := front ++ b.before }

/-- Characters in front of a text among which no block opens move its block, or the error in it,
back by their length. -/
theorem locate_append {front : List Char} (hlast : front.getLast?.any Text.isIdentifier = false)
    {t : List Char} (h : opensIn none front t = false) :
    locate (front ++ t) =
      shiftResult (Text.bytes front) (Option.map (behind front)) (locate t) := by
  have hopening : opening? none (front ++ t) =
      (opening? none t).map fun p => (front ++ p.1, p.2) := by
    rw [opening?_append t h, Option.or_none, opening?_behind hlast]
  unfold locate
  rw [hopening]
  rcases opening? none t with _ | ⟨before, gap, rest⟩
  · rfl
  · dsimp only [Option.map_some]
    have hopened : Text.bytes (front ++ before ++ keyword ++ gap) =
        Text.bytes front + Text.bytes (before ++ keyword ++ gap) := by
      simp only [Text.bytes_append, Nat.add_assoc]
    rw [hopened]
    have hscan := scan_shift (Text.bytes front) ⟨Text.bytes (before ++ keyword ++ gap), rest⟩
    rw [Cursor.shift] at hscan
    rw [hscan, Scan.shift, closing_shift]
    refine map_shiftResult _ (fun stop => ?_) _
    rw [Nat.add_sub_add_left]
    rfl

/-- A comment in front of a text moves what is located in the text back by its length when no block
opens in the comment. When one does, no block is located but in the comment. -/
theorem locate_behind_comment {c : List Char} (hc : IsComment c) (t : List Char) :
    (opensIn none c t = false → locate (c ++ t) =
      shiftResult (Text.bytes c) (Option.map (behind c)) (locate t)) ∧
    (opensIn none c t = true → locate (c ++ t) ≠ .ok none ∧
      ∀ b, locate (c ++ t) = .ok (some b) → b.start < Text.bytes c) := by
  refine ⟨locate_append hc.getLast?_any, fun h => ?_⟩
  obtain ⟨before, gap, rest, hopening, hbytes⟩ := exists_opening_of_opensIn h
  refine ⟨fun hnone => ?_, fun b hb => ?_⟩
  · unfold locate at hnone
    rw [hopening] at hnone
    obtain ⟨_, -, he⟩ := map_eq_ok.1 hnone
    cases he
  · obtain ⟨_, hopening', -⟩ := exists_opening hb
    rw [hopening] at hopening'
    cases hopening'
    exact hbytes

/-- The block of a view. -/
def sampleView : List Char := "config \x7btype: 'view'\x7d".toList

theorem locate_behind_comment_sample :
    IsComment "-- config notes\n".toList ∧
    opensIn none "-- config notes\n".toList sampleView = false ∧
    locate ("-- config notes\n".toList ++ sampleView) =
      .ok (some ⟨"-- config notes\n".toList, [' '], "\x7btype: 'view'\x7d".toList, []⟩) := by
  have hcomment : IsComment (['-', '-'] ++ " config notes".toList ++ ['\n']) :=
    .line (.inl rfl) (by decide)
  have hnone : opensIn none "-- config notes\n".toList sampleView = false := by decide +kernel
  have hview : locate sampleView =
      .ok (some ⟨[], [' '], "\x7btype: 'view'\x7d".toList, []⟩) := by decide +kernel
  refine ⟨hcomment, hnone, ?_⟩
  have hmoved := (locate_behind_comment hcomment sampleView).1 hnone
  rw [hview] at hmoved
  exact hmoved

/-- A block in a comment is taken for the configuration, in place of the block behind the comment.
-/
theorem locate_behind_comment_fails :
    IsComment "/* config \x7b\x7d */".toList ∧
    locate ("/* config \x7b\x7d */".toList ++ sampleView) =
      .ok (some ⟨"/* ".toList, [' '], "\x7b\x7d".toList, " */".toList ++ sampleView⟩) ∧
    locate ("/* config \x7b\x7d */".toList ++ sampleView) ≠
      shiftResult (Text.bytes "/* config \x7b\x7d */".toList)
        (Option.map (behind "/* config \x7b\x7d */".toList)) (locate sampleView) := by
  have hcomment : IsComment (['/', '*'] ++ " config \x7b\x7d ".toList ++ ['*', '/']) :=
    .block (by decide)
  exact ⟨hcomment, by decide +kernel, by decide +kernel⟩

end Block

end ColumnMetadata
