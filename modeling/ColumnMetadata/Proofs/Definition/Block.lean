import ColumnMetadata.Proofs.Literal.Reading
import Mathlib.Data.List.TakeWhile

/-!
# Locating a block again

The parts of a located block put together are the text (`Block.text_of_locate`). When another object
is written in the place of a block, the block is located again at the same place and ends where the
object does (`Block.locate_replace`): what stands in front of the keyword opens no block, whatever
follows, because the keyword overlaps with no other occurrence of itself.
-/

namespace ColumnMetadata.Block

open Literal

theorem eq_of_dropKeyword? {ks cs rest : List Char} (h : dropKeyword? ks cs = some rest) :
    cs = ks ++ rest := by
  induction ks generalizing cs with
  | nil =>
    cases h
    rfl
  | cons k ks ih =>
    cases cs with
    | nil => cases h
    | cons c cs =>
      rw [dropKeyword?] at h
      split at h
      · next hk => rw [hk, ih h, List.cons_append]
      · cases h

@[simp] theorem dropKeyword?_append (ks rest : List Char) :
    dropKeyword? ks (ks ++ rest) = some rest := by
  induction ks with
  | nil => rfl
  | cons k ks ih => rw [List.cons_append, dropKeyword?, if_pos rfl, ih]

theorem dropKeyword?_append_of_length_le {ks x : List Char} (h : ks.length ≤ x.length)
    (y : List Char) : dropKeyword? ks (x ++ y) = (dropKeyword? ks x).map (· ++ y) := by
  induction ks generalizing x with
  | nil => rfl
  | cons k ks ih =>
    cases x with
    | nil => cases h
    | cons c x =>
      rw [List.cons_append, dropKeyword?, dropKeyword?, ih (Nat.le_of_succ_le_succ h)]
      split <;> rfl

/-! ## Where a block opens -/

/-- What it means that a block opens: the keyword, blanks, and a brace, behind no identifier. -/
theorem opens?_eq_some {previous : Option Char} {cs gap rest : List Char}
    (h : opens? previous cs = some (gap, rest)) :
    previous.any Text.isIdentifier = false ∧ cs = keyword ++ gap ++ rest ∧
      (∀ c ∈ gap, Text.isBlank c = true) ∧ ∃ more, rest = '{' :: more := by
  unfold opens? at h
  split at h
  · cases h
  · next hprevious =>
    obtain ⟨behind, hbehind, h⟩ := Option.bind_eq_some_iff.1 h
    split at h
    · next more hdrop =>
      cases h
      refine ⟨Bool.eq_false_iff.2 hprevious, ?_, fun c hc => ?_, more, rfl⟩
      · rw [eq_of_dropKeyword? hbehind, List.append_assoc, ← hdrop, List.takeWhile_append_dropWhile]
      · exact List.all_eq_true.1 List.all_takeWhile c hc
    · cases h

theorem opens?_keyword {previous : Option Char} (h : previous.any Text.isIdentifier = false)
    {gap : List Char} (hgap : ∀ c ∈ gap, Text.isBlank c = true) (more : List Char) :
    opens? previous (keyword ++ gap ++ '{' :: more) = some (gap, '{' :: more) := by
  have hbrace : Text.isBlank '{' = false := rfl
  unfold opens?
  rw [if_neg (Bool.eq_false_iff.1 h), List.append_assoc, dropKeyword?_append]
  simp [List.dropWhile_append_of_pos hgap, List.takeWhile_append_of_pos hgap, hbrace]

/-- The keyword is not found across the place where it stands: it overlaps with itself nowhere. -/
theorem dropKeyword?_append_keyword {x : List Char} (hx : x ≠ []) (tail : List Char) :
    dropKeyword? keyword (x ++ (keyword ++ tail)) =
      (dropKeyword? keyword x).map (· ++ (keyword ++ tail)) := by
  match x, hx with
  | [a], _ | [a, b], _ | [a, b, c], _ | [a, b, c, d], _ | [a, b, c, d, e], _ =>
    simp [dropKeyword?, keyword]
  | a :: b :: c :: d :: e :: f :: x, _ =>
    have hlong : keyword.length ≤ (a :: b :: c :: d :: e :: f :: x).length :=
      Nat.le_add_left 6 x.length
    exact dropKeyword?_append_of_length_le hlong _

/-- Whether a block opens in front of the keyword does not depend on what follows the keyword. -/
theorem opens?_append_keyword {x : List Char} (hx : x ≠ []) (previous : Option Char)
    (tail : List Char) :
    opens? previous (x ++ (keyword ++ tail)) =
      (opens? previous x).map fun p => (p.1, p.2 ++ (keyword ++ tail)) := by
  unfold opens?
  split
  · rfl
  · rw [dropKeyword?_append_keyword hx]
    cases dropKeyword? keyword x with
    | none => rfl
    | some behind =>
      have hblank : ∀ c ∈ behind.takeWhile Text.isBlank, Text.isBlank c = true :=
        fun c hc => List.all_eq_true.1 List.all_takeWhile c hc
      have hhead := List.head?_dropWhile_not Text.isBlank behind
      have hsplit := List.takeWhile_append_dropWhile (p := Text.isBlank) (l := behind)
      generalize behind.takeWhile Text.isBlank = blanks at hblank hsplit
      generalize behind.dropWhile Text.isBlank = more at hhead hsplit
      subst hsplit
      cases more with
      | nil =>
        have hkeyword : Text.isBlank 'c' = false := rfl
        have hnone : blanks.dropWhile Text.isBlank = [] := List.dropWhile_eq_nil_iff.2 hblank
        simp [List.dropWhile_append_of_pos hblank, hnone, keyword, hkeyword]
      | cons d ds =>
        replace hhead : Text.isBlank d = false := hhead
        by_cases hd : d = '{'
        · subst hd
          simp [List.dropWhile_append_of_pos hblank, List.takeWhile_append_of_pos hblank, hhead]
        · simp [List.dropWhile_append_of_pos hblank, hhead, hd]

/-! ## The first place where a block opens -/

/-- What the first opening says of the text. -/
theorem opening?_eq_some {previous : Option Char} {cs before gap rest : List Char}
    (h : opening? previous cs = some (before, gap, rest)) :
    cs = before ++ keyword ++ gap ++ rest ∧ (∀ c ∈ gap, Text.isBlank c = true) ∧
      ∃ more, rest = '{' :: more := by
  induction cs generalizing previous before with
  | nil => cases h
  | cons c cs ih =>
    rw [opening?] at h
    split at h
    · next hopens =>
      cases h
      exact (opens?_eq_some hopens).2
    · obtain ⟨⟨before, gap, rest⟩, hlater, he⟩ := Option.map_eq_some_iff.1 h
      cases he
      obtain ⟨rfl, hrest⟩ := ih hlater
      exact ⟨rfl, hrest⟩

/-- The first block still opens in the same place when something else follows its keyword. -/
theorem opening?_replace {previous : Option Char} {before tail gap rest : List Char}
    (h : opening? previous (before ++ (keyword ++ tail)) = some (before, gap, rest))
    {gap' : List Char} (hgap : ∀ c ∈ gap', Text.isBlank c = true) (more : List Char) :
    opening? previous (before ++ (keyword ++ (gap' ++ '{' :: more))) =
      some (before, gap', '{' :: more) := by
  induction before generalizing previous with
  | nil =>
    have hprevious : previous.any Text.isIdentifier = false := by
      rw [List.nil_append, keyword, List.cons_append, opening?] at h
      split at h
      · next hopens => exact (opens?_eq_some hopens).1
      · obtain ⟨_, -, he⟩ := Option.map_eq_some_iff.1 h
        cases he
    have hopens := opens?_keyword hprevious hgap more
    rw [List.append_assoc, keyword, List.cons_append] at hopens
    rw [List.nil_append, keyword, List.cons_append, opening?, hopens]
  | cons c before ih =>
    rw [List.cons_append, opening?, ← List.cons_append,
      opens?_append_keyword (List.cons_ne_nil c before)] at h ⊢
    cases hopens : opens? previous (c :: before) with
    | some p =>
      rw [hopens] at h
      cases h
    | none =>
      rw [hopens] at h
      obtain ⟨⟨before', gap, rest⟩, hlater, he⟩ := Option.map_eq_some_iff.1 h
      cases he
      rw [Option.map_none]
      dsimp only
      rw [ih hlater]
      rfl

/-! ## Located blocks -/

theorem pretty_object_eq_cons (fs : List (String × Value)) :
    ∃ cs, (Value.object fs).pretty 0 = '{' :: cs := by
  cases fs with
  | nil => exact ⟨_, rfl⟩
  | cons f fs => exact ⟨_, rfl⟩

section Located

variable {text : List Char} {b : Block} (h : locate text = .ok (some b))

include h in
/-- A block is located where one opens first, and its body is what was cut off there. -/
theorem exists_opening :
    ∃ rest, opening? none text = some (b.before, b.gap, rest) ∧ b.body ++ b.after = rest := by
  unfold locate at h
  split at h
  · cases h
  · next before gap rest hopening =>
    obtain ⟨stop, -, he⟩ := map_eq_ok.1 h
    cases he
    exact ⟨rest, hopening, Text.takeBytes_append_dropBytes _ rest⟩

include h in
/-- A located block is the text cut into parts. -/
theorem text_of_locate : b.text = text := by
  obtain ⟨rest, hopening, rfl⟩ := exists_opening h
  rw [(opening?_eq_some hopening).1, Block.text, content]
  simp only [List.append_assoc]

include h in
/-- With another object in the place of the block, the block is located at the same place, and it
ends where the object does. -/
theorem locate_replace {fs : List (String × Value)} (hfits : (Value.object fs).Fits maxDepth)
    (hnumbers : ∀ x ∈ (Value.object fs).numbers, x.Legible) :
    locate (b.replace (keyword ++ ' ' :: (Value.object fs).pretty 0)) =
      .ok (some ⟨b.before, [' '], (Value.object fs).pretty 0, b.after⟩) := by
  obtain ⟨rest, hopening, rfl⟩ := exists_opening h
  obtain ⟨cs, hcs⟩ := pretty_object_eq_cons fs
  rw [(opening?_eq_some hopening).1] at hopening
  simp only [List.append_assoc] at hopening
  have hspace : ∀ c ∈ [' '], Text.isBlank c = true := List.forall_mem_singleton.2 rfl
  have hreopening := opening?_replace hopening hspace (cs ++ b.after)
  rw [← List.cons_append, ← hcs] at hreopening
  have htext : b.replace (keyword ++ ' ' :: (Value.object fs).pretty 0) =
      b.before ++ (keyword ++ ([' '] ++ ((Value.object fs).pretty 0 ++ b.after))) := by
    simp [replace]
  rw [htext, locate, hreopening]
  dsimp only
  rw [closing_pretty hfits hnumbers]
  simp [Except.map]

end Located

/-! ## Offsets -/

theorem stop_eq (b : Block) : b.stop = b.start + Text.bytes b.content := by
  simp only [stop, bodyStart, content, Text.bytes_append, Nat.add_assoc]

theorem takeBytes_start (b : Block) : Text.takeBytes b.start b.text = b.before := by
  rw [text, List.append_assoc, start, Text.takeBytes_append]

theorem dropBytes_stop (b : Block) : Text.dropBytes b.stop b.text = b.after := by
  rw [text, stop_eq, start, ← Text.bytes_append, Text.dropBytes_append]

/-! ## Reading the body -/

theorem bodyStart_eq (b : Block) : b.bodyStart = Text.bytes (b.before ++ (keyword ++ b.gap)) := by
  rw [Text.bytes_append, bodyStart, start]

theorem text_eq_body (b : Block) :
    b.text = (b.before ++ (keyword ++ b.gap)) ++ (b.body ++ b.after) := by
  simp [text, content]

/-- An object in the body of a block is read with its numbers anew, and it fills the block. -/
theorem parseAt_body {b : Block} {fs : List (String × Value)}
    (hbody : b.body = (Value.object fs).pretty 0) (hfits : (Value.object fs).Fits maxDepth)
    (hnumbers : ∀ x ∈ (Value.object fs).numbers, x.Legible) :
    parseAt b.text b.bodyStart = .ok ((Value.object fs).mapNumbers .reread, b.stop) := by
  have hcursor : Cursor.at b.text b.bodyStart = ⟨b.bodyStart, b.body ++ b.after⟩ := by
    rw [Cursor.at, bodyStart_eq, text_eq_body, Text.dropBytes_append]
  obtain ⟨ts, hts⟩ := scan_value_pretty hfits hnumbers b.bodyStart b.after
  rw [parseAt, scanAt, hcursor, hbody, hts, stop, hbody]
  rfl

end ColumnMetadata.Block
