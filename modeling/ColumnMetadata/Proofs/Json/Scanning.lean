import ColumnMetadata.Json.Scan
import ColumnMetadata.Proofs.Literal.Printed
import Mathlib.Data.List.Chain

/-!
# Lexemes of JSON as tokens of literals

Where JSON has a lexeme with a value, the scan of object literals has a token for it
(`scannedAs_lexeme`): strings have the same text, although the two read their escapes differently
(`stringBody_of_pieces`), and words and numbers end in the same place as long as no other word or
number comes next (`Spaced`). So a text that is scanned as such lexemes is scanned as the matching
tokens (`scannedAs_of_scan?`).
-/

namespace ColumnMetadata.Json

open Literal (unit? isHighSurrogate isLowSurrogate ofSurrogates isBare Stops ScannedAs)

/-! ## Strings -/

/-- A character stands in front of a text, behind a backslash or as it is. -/
def WritesChar (c : Char) (cs rest : List Char) : Prop :=
  (∃ e, cs = '\\' :: e :: rest ∧ escaped? e = some c) ∨
    (cs = c :: rest ∧ c ≠ '"' ∧ c ≠ '\\' ∧ 32 ≤ c.toNat)

/-- A string ends with its quote, or has a unit or a character in front of the rest. -/
theorem stringBody?_cases {cs rest : List Char} {ps : List Piece}
    (h : stringBody? cs = some (ps, rest)) :
    (ps = [] ∧ cs = '"' :: rest) ∨
    (∃ u ps' a b c d cs', ps = .unit u :: ps' ∧
      cs = '\\' :: 'u' :: a :: b :: c :: d :: cs' ∧ unit? a b c d = some u ∧
      stringBody? cs' = some (ps', rest)) ∨
    ∃ c ps' cs', ps = .char c :: ps' ∧ stringBody? cs' = some (ps', rest) ∧
      WritesChar c cs cs' := by
  rw [stringBody?.eq_def] at h
  split at h
  · cases h
  · cases h
    exact .inl ⟨rfl, rfl⟩
  · next a b c d cs' =>
    obtain ⟨u, hu, h⟩ := Option.bind_eq_some_iff.1 h
    obtain ⟨⟨ps', rest'⟩, hrest, h⟩ := Option.bind_eq_some_iff.1 h
    cases h
    exact .inr (.inl ⟨u, ps', a, b, c, d, cs', rfl, rfl, hu, hrest⟩)
  · next e cs' _ =>
    obtain ⟨c, hc, h⟩ := Option.bind_eq_some_iff.1 h
    obtain ⟨⟨ps', rest'⟩, hrest, h⟩ := Option.bind_eq_some_iff.1 h
    cases h
    exact .inr (.inr ⟨c, ps', cs', rfl, hrest, .inl ⟨e, rfl, hc⟩⟩)
  · next c cs' hquote _ _ =>
    split at h
    · cases h
    · next hplain =>
      obtain ⟨⟨ps', rest'⟩, hrest, h⟩ := Option.bind_eq_some_iff.1 h
      cases h
      obtain ⟨hslash, hcontrol⟩ := not_or.1 hplain
      refine .inr (.inr ⟨c, ps', cs', rfl, hrest, .inr ⟨rfl, ?_, hslash, Nat.not_lt.1 hcontrol⟩⟩)
      rintro rfl
      exact hquote rfl

/-- An escape of JSON stands for the same character in a literal. -/
theorem escaped_of_escaped? {e c : Char} (h : escaped? e = some c) :
    e ≠ 'u' ∧ Literal.escaped e = some c := by
  unfold escaped? at h
  split at h
  case h_9 => cases h
  all_goals
    cases h
    exact ⟨by decide, rfl⟩

/-- A piece that is a character is read as the character. -/
theorem stringBody_char {cs cs' : List Char} {c : Char} (start pos : Nat)
    (h : WritesChar c cs cs') : ∃ pos', Literal.stringBody '"' start pos cs =
      (Literal.stringBody '"' start pos' cs').map (.cons c) := by
  rcases h with ⟨e, rfl, he⟩ | ⟨rfl, hquote, hslash, hcontrol⟩
  · obtain ⟨hu, he⟩ := escaped_of_escaped? he
    exact ⟨_, Literal.stringBody_escaped start pos cs' (by decide) hu he⟩
  · have hbreak : c ≠ '\n' := by
      rintro rfl
      exact absurd hcontrol (by decide)
    exact ⟨_, Literal.stringBody_plain start pos cs' hquote hbreak hslash⟩

theorem stringBody?_nil {cs rest : List Char} (h : stringBody? cs = some ([], rest)) :
    cs = '"' :: rest := by
  rcases stringBody?_cases h with ⟨-, hcs⟩ | ⟨_, _, _, _, _, _, _, hps, -⟩ | ⟨_, _, _, hps, -⟩
  · exact hcs
  · cases hps
  · cases hps

theorem stringBody?_char {cs rest : List Char} {c : Char} {ps : List Piece}
    (h : stringBody? cs = some (.char c :: ps, rest)) :
    ∃ cs', stringBody? cs' = some (ps, rest) ∧ WritesChar c cs cs' := by
  rcases stringBody?_cases h with ⟨hps, -⟩ | ⟨_, _, _, _, _, _, _, hps, -⟩ | ⟨_, _, cs', hps, hrest⟩
  · cases hps
  · cases hps
  · cases hps
    exact ⟨cs', hrest⟩

theorem stringBody?_unit {cs rest : List Char} {u : Nat} {ps : List Piece}
    (h : stringBody? cs = some (.unit u :: ps, rest)) :
    ∃ a b c d cs', cs = '\\' :: 'u' :: a :: b :: c :: d :: cs' ∧ unit? a b c d = some u ∧
      stringBody? cs' = some (ps, rest) := by
  rcases stringBody?_cases h with ⟨hps, -⟩ | ⟨_, _, a, b, c, d, cs', hps, hrest⟩ | ⟨_, _, _, hps, -⟩
  · cases hps
  · cases hps
    exact ⟨a, b, c, d, cs', hrest⟩
  · cases hps

/-- A unit is a character by itself or the first one of a pair. -/
theorem assemble?_unit {u : Nat} {ps : List Piece} {s : List Char}
    (h : assemble? (.unit u :: ps) = some s) :
    (isHighSurrogate u = false ∧ isLowSurrogate u = false ∧
      ∃ s', assemble? ps = some s' ∧ s = Char.ofNat u :: s') ∨
    (isHighSurrogate u = true ∧ ∃ v ps' s', ps = .unit v :: ps' ∧ isLowSurrogate v = true ∧
      assemble? ps' = some s' ∧ s = ofSurrogates u v :: s') := by
  rw [assemble?.eq_def] at h
  dsimp only at h
  split at h
  · next hhigh =>
    split at h
    · next v ps' =>
      split at h
      · next hlow =>
        obtain ⟨s', hs', rfl⟩ := Option.map_eq_some_iff.1 h
        exact .inr ⟨hhigh, v, ps', s', rfl, hlow, hs', rfl⟩
      · cases h
    · cases h
  · next hhigh =>
    split at h
    · cases h
    · next hlow =>
      obtain ⟨s', hs', rfl⟩ := Option.map_eq_some_iff.1 h
      exact .inl ⟨Bool.eq_false_iff.2 hhigh, Bool.eq_false_iff.2 hlow, s', hs', rfl⟩

/-- The pieces of a string that have a text are read as the text. -/
theorem stringBody_of_pieces : ∀ {ps : List Piece} {cs rest s : List Char},
    stringBody? cs = some (ps, rest) → assemble? ps = some s → ∀ start pos, ∃ stop,
      Literal.stringBody '"' start pos cs = .ok ⟨s, ⟨stop, rest⟩⟩
  | [], _, rest, _, h, hs, start, pos => by
    cases hs
    rw [stringBody?_nil h, Literal.stringBody.eq_def]
    exact ⟨_, rfl⟩
  | .char c :: ps, _, _, _, h, hs, start, pos => by
    obtain ⟨s', hs', rfl⟩ := Option.map_eq_some_iff.1 hs
    obtain ⟨cs', hrest, hchar⟩ := stringBody?_char h
    obtain ⟨pos', hbody⟩ := stringBody_char start pos hchar
    obtain ⟨stop, hstop⟩ := stringBody_of_pieces hrest hs' start pos'
    rw [hbody, hstop]
    exact ⟨stop, rfl⟩
  | .unit u :: ps, _, _, _, h, hs, start, pos => by
    obtain ⟨a, b, c, d, cs', rfl, hu, hrest⟩ := stringBody?_unit h
    rcases assemble?_unit hs with
      ⟨hhigh, hlow, s', hs', rfl⟩ | ⟨hhigh, v, ps', s', rfl, hlow, hs', rfl⟩
    · obtain ⟨stop, hstop⟩ := stringBody_of_pieces hrest hs' start (pos + 6)
      rw [Literal.stringBody_unit start pos cs' (by decide) hu hhigh hlow, hstop]
      exact ⟨stop, rfl⟩
    · obtain ⟨a', b', c', d', cs'', rfl, hv, hrest'⟩ := stringBody?_unit hrest
      obtain ⟨stop, hstop⟩ := stringBody_of_pieces hrest' hs' start (pos + 12)
      rw [Literal.stringBody_pair start pos cs'' (by decide) hu hv hhigh hlow, hstop]
      exact ⟨stop, rfl⟩

/-! ## Lexemes -/

namespace Lexeme

/-- A lexeme that is written with the characters of words and numbers. -/
def isRun : Lexeme → Bool
  | null | bool _ | number _ => true
  | _ => false

/-- A string that has a text, a number in range, or any other lexeme. -/
def isSound : Lexeme → Bool
  | number x => x.isSome
  | string s => s.isSome
  | _ => true

/-- The token that an object literal has for a lexeme. -/
inductive Matches : Lexeme → Literal.Lexeme → Prop
  | openBrace : Matches openBrace .openBrace
  | closeBrace : Matches closeBrace .closeBrace
  | openBracket : Matches openBracket .openBracket
  | closeBracket : Matches closeBracket .closeBracket
  | colon : Matches colon .colon
  | comma : Matches comma .comma
  | null : Matches null (.word "null")
  | true : Matches (bool true) (.word "true")
  | false : Matches (bool false) (.word "false")
  | number (text : String) (x : Number) : Matches (number (some x)) (.number text x)
  | string (s : String) : Matches (string (some s)) (.string s)

end Lexeme

/-- A number is read where it ends for literals too. -/
theorem scannedAs_number {parts : Number.Parts} {cs rest : List Char} {x : Number}
    (hparts : Number.parts? cs = some parts) (hx : Number.ofParts? parts = some x)
    (hrest : Stops rest) (pos : Nat) :
    ScannedAs pos cs rest [.number (String.ofList cs) x] := by
  refine Literal.scannedAs_numeral ?_ hrest pos
  rw [Number.read?, hparts, Option.bind_some, hx]

theorem scannedAs_string {cs rest s : List Char} {ps : List Piece}
    (h : stringBody? cs = some (ps, rest)) (hs : assemble? ps = some s) :
    ∃ text, '"' :: cs = text ++ rest ∧
      ∀ pos, ScannedAs pos text rest [.string (String.ofList s)] := by
  have hbody := stringBody_of_pieces h hs
  obtain ⟨_, hbody₀⟩ := hbody 0 0
  obtain ⟨body, hcs, -⟩ := Literal.stringBody_reaches hbody₀
  dsimp only at hcs
  subst hcs
  refine ⟨'"' :: body, rfl, fun pos => ?_⟩
  obtain ⟨stop, hstop⟩ := hbody pos (pos + 1)
  obtain ⟨passed, hpassed, hpos⟩ := Literal.stringBody_reaches hstop
  obtain rfl := List.append_cancel_right hpassed
  dsimp only at hpos
  have hbehind : stop = pos + Text.bytes ('"' :: body) := by
    rw [hpos, Text.bytes_cons, Nat.add_assoc]
    rfl
  refine .token (p := pos) (t := ⟨.string (String.ofList s), pos, stop⟩) ?_ rfl
  rw [List.cons_append, Literal.next?_of_not_blank pos _ rfl (by decide), ← hbehind]
  simp [Literal.tokenAt, Literal.punctuation?, show '"'.utf8Size = 1 from rfl, hstop, Except.map]

/-- What is a lexeme of JSON with a value is the matching token of a literal, if a word or a number
ends there for literals too. -/
theorem scannedAs_lexeme {cs rest : List Char} {l : Lexeme} (h : lexeme? cs = some (l, rest))
    (hsound : l.isSound = true) (hstops : l.isRun = true → Stops rest) :
    ∃ text lit, cs = text ++ rest ∧ l.Matches lit ∧ ∀ pos, ScannedAs pos text rest [lit] := by
  unfold lexeme? at h
  split at h
  · cases h
  · cases h
    exact ⟨['{'], _, rfl, .openBrace, fun pos => Literal.scannedAs_punctuation rfl pos _⟩
  · cases h
    exact ⟨['}'], _, rfl, .closeBrace, fun pos => Literal.scannedAs_punctuation rfl pos _⟩
  · cases h
    exact ⟨['['], _, rfl, .openBracket, fun pos => Literal.scannedAs_punctuation rfl pos _⟩
  · cases h
    exact ⟨[']'], _, rfl, .closeBracket, fun pos => Literal.scannedAs_punctuation rfl pos _⟩
  · cases h
    exact ⟨[':'], _, rfl, .colon, fun pos => Literal.scannedAs_punctuation rfl pos _⟩
  · cases h
    exact ⟨[','], _, rfl, .comma, fun pos => Literal.scannedAs_punctuation rfl pos _⟩
  · cases h
    exact ⟨['n', 'u', 'l', 'l'], _, rfl, .null, Literal.scannedAs_run (by decide)
      (List.all_eq_true.1 rfl) rfl (hstops rfl)⟩
  · cases h
    exact ⟨['t', 'r', 'u', 'e'], _, rfl, .true, Literal.scannedAs_run (by decide)
      (List.all_eq_true.1 rfl) rfl (hstops rfl)⟩
  · cases h
    exact ⟨['f', 'a', 'l', 's', 'e'], _, rfl, .false, Literal.scannedAs_run (by decide)
      (List.all_eq_true.1 rfl) rfl (hstops rfl)⟩
  · obtain ⟨⟨ps, rest'⟩, hbody, h⟩ := Option.bind_eq_some_iff.1 h
    cases h
    obtain ⟨s, hs⟩ := Option.isSome_iff_exists.1 hsound
    obtain ⟨s, hs', rfl⟩ := Option.map_eq_some_iff.1 hs
    obtain ⟨text, htext, hscanned⟩ := scannedAs_string hbody hs'
    rw [hs']
    exact ⟨text, _, htext, .string _, hscanned⟩
  · obtain ⟨parts, hparts, h⟩ := Option.bind_eq_some_iff.1 h
    cases h
    obtain ⟨x, hx⟩ := Option.isSome_iff_exists.1 hsound
    rw [hx]
    exact ⟨_, _, List.takeWhile_append_dropWhile.symm, .number _ x,
      scannedAs_number hparts hx (hstops rfl)⟩

/-! ## The whole scan -/

/-- No word or number stands directly behind another one. -/
def Spaced (ls : List Lexeme) : Prop := ls.IsChain fun l m => (l.isRun && m.isRun) = false

/-- A lexeme begins with a character of words and numbers only if it consists of such. -/
theorem isBare_of_lexeme? {c : Char} {cs rest : List Char} {l : Lexeme}
    (h : lexeme? (c :: cs) = some (l, rest)) (hrun : l.isRun = false) : isBare c = false := by
  unfold lexeme? at h
  split at h
  case h_1 => cases h
  case h_8 | h_9 | h_10 =>
    cases h
    cases hrun
  case h_12 =>
    obtain ⟨parts, -, h⟩ := Option.bind_eq_some_iff.1 h
    cases h
    cases hrun
  all_goals
    next heq =>
    cases heq
    rfl

theorem scanFrom?_cases {n : Nat} {cs : List Char} {ls : List Lexeme}
    (h : scanFrom? n cs = some ls) : (cs.dropWhile isBlank = [] ∧ ls = []) ∨
      ∃ m l rest ls', n = m + 1 ∧ lexeme? (cs.dropWhile isBlank) = some (l, rest) ∧
        scanFrom? m rest = some ls' ∧ ls = l :: ls' := by
  rw [scanFrom?.eq_def] at h
  dsimp only at h
  split at h
  · next hdrop =>
    cases h
    exact .inl ⟨hdrop, rfl⟩
  · cases h
  · next c cs' m hdrop =>
    obtain ⟨⟨l, rest⟩, hl, h⟩ := Option.bind_eq_some_iff.1 h
    obtain ⟨ls', hls', h⟩ := Option.bind_eq_some_iff.1 h
    cases h
    exact .inr ⟨m, l, rest, ls', rfl, hdrop ▸ hl, hls', rfl⟩

theorem isBlank_of_isBlank {c : Char} (h : isBlank c = true) :
    Text.isBlank c = true ∧ isBare c = false := by
  simp only [isBlank, Bool.or_eq_true, beq_iff_eq] at h
  rcases h with ((rfl | rfl) | rfl) | rfl
  all_goals exact ⟨rfl, by decide⟩

/-- Where no word or number comes next, the one in front ends for literals too. -/
theorem stops_of_scanFrom? {n : Nat} {cs : List Char} {ls : List Lexeme}
    (h : scanFrom? n cs = some ls) (hnext : ∀ l ∈ ls.head?, l.isRun = false) : Stops cs := by
  cases cs with
  | nil => exact nofun
  | cons c cs =>
    refine Literal.stops_cons ?_
    cases hblank : isBlank c with
    | true => exact (isBlank_of_isBlank hblank).2
    | false =>
      rw [← Bool.not_eq_true] at hblank
      rcases scanFrom?_cases h with ⟨hnone, -⟩ | ⟨m, l, rest, ls', -, hl, -, rfl⟩
      · rw [List.dropWhile_cons_of_neg hblank] at hnone
        cases hnone
      · rw [List.dropWhile_cons_of_neg hblank] at hl
        exact isBare_of_lexeme? hl (hnext l rfl)

/-- The blanks in front of a text. -/
theorem scannedAs_takeWhile (cs rest : List Char) (pos : Nat) :
    ScannedAs pos (cs.takeWhile isBlank) rest [] := by
  refine Literal.scannedAs_blanks (fun c hc => ?_) pos rest
  exact (isBlank_of_isBlank (List.all_eq_true.1 List.all_takeWhile c hc)).1

theorem scannedAs_of_blank {cs : List Char} (h : cs.dropWhile isBlank = []) (pos : Nat) :
    ScannedAs pos cs [] [] := by
  have hcs := List.takeWhile_append_dropWhile (p := isBlank) (l := cs)
  rw [h, List.append_nil] at hcs
  rw [← hcs]
  exact scannedAs_takeWhile cs [] pos

/-- A text that is scanned as lexemes with values, words and numbers apart, is scanned as the
matching tokens. -/
theorem scannedAs_of_scanFrom? {n : Nat} {cs : List Char} {ls : List Lexeme}
    (h : scanFrom? n cs = some ls) (hsound : ∀ l ∈ ls, l.isSound = true) (hspaced : Spaced ls) :
    ∃ lits, List.Forall₂ Lexeme.Matches ls lits ∧ ∀ pos, ScannedAs pos cs [] lits := by
  induction n generalizing cs ls with
  | zero =>
    rcases scanFrom?_cases h with ⟨hblank, rfl⟩ | ⟨_, _, _, _, hm, -⟩
    · exact ⟨[], .nil, scannedAs_of_blank hblank⟩
    · cases hm
  | succ n ih =>
    rcases scanFrom?_cases h with ⟨hblank, rfl⟩ | ⟨m, l, rest, ls', hm, hl, hrest, rfl⟩
    · exact ⟨[], .nil, scannedAs_of_blank hblank⟩
    · cases hm
      obtain ⟨hl', hls'⟩ := List.forall_mem_cons.1 hsound
      obtain ⟨hnext, hspaced'⟩ := List.isChain_cons.1 hspaced
      have hstops : l.isRun = true → Stops rest := by
        intro hrun
        refine stops_of_scanFrom? hrest fun l' hl' => ?_
        have hapart := hnext l' hl'
        rwa [hrun, Bool.true_and] at hapart
      obtain ⟨text, lit, htext, hmatches, hscanned⟩ := scannedAs_lexeme hl hl' hstops
      obtain ⟨lits, hlits, hscanned'⟩ := ih hrest hls' hspaced'
      refine ⟨lit :: lits, .cons hmatches hlits, fun pos => ?_⟩
      have hcs : cs = cs.takeWhile isBlank ++ (text ++ rest) := by
        rw [← htext, List.takeWhile_append_dropWhile]
      rw [hcs, ← List.singleton_append, ← List.nil_append ([lit] ++ lits)]
      refine .append (scannedAs_takeWhile cs _ pos) (.append ?_ (hscanned' _))
      rw [List.append_nil]
      exact hscanned _

end ColumnMetadata.Json
