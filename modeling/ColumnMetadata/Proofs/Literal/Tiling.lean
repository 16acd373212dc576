import ColumnMetadata.Literal.Parse
import ColumnMetadata.Proofs.Literal.Spelling
import ColumnMetadata.Text.Search

/-!
# Scans tile their texts

A scan loses nothing: the text that it has seen is its tokens as they are spelled (`Takes`), with
blanks and comments before, between and behind them (`Gap`), each at the offsets that the token says
(`Tiled`). One call of the scanner takes one gap and one token (`next?_tile`). So calling it again and
again, behind the token before, comes to an end (`Calls`), and what it gives on the way lies on the
boundaries of characters (`scan_tiles`).
-/

namespace ColumnMetadata.Literal

/-! ## Blanks and comments -/

/-- What may stand in front of a token, or of the end of a text: blanks and comments. A line comment
goes on to the end of its line or of the text, a block comment to the first end mark in it. -/
inductive Gap (rest : List Char) : List Char → Prop
  | nil : Gap rest []
  | blank {c : Char} {cs : List Char} (hc : Text.isBlank c = true) (h : Gap rest cs) :
      Gap rest (c :: cs)
  | line {body cs : List Char} (hbody : '\n' ∉ body) (h : Gap rest cs) :
      Gap rest ('/' :: '/' :: body ++ '\n' :: cs)
  | lastLine {body : List Char} (hbody : '\n' ∉ body) (hrest : rest = []) :
      Gap rest ('/' :: '/' :: body)
  | block {body cs : List Char} (hbody : Text.containsText ['*', '/'] body = false)
      (h : Gap rest cs) : Gap rest ('/' :: '*' :: body ++ '*' :: '/' :: cs)

mutual

theorem exists_gap_of_skip : ∀ {pos : Nat} {cs : List Char} {p : Cursor}, skip pos cs = .ok p →
    ∃ gap, cs = gap ++ p.rest ∧ Gap p.rest gap
  | pos, [], p, h => by
    unfold skip at h
    cases h
    exact ⟨[], rfl, .nil⟩
  | pos, c :: cs, p, h => by
    unfold skip at h
    split at h
    · next hcs => cases hcs
    · next cs' hcs =>
      cases hcs
      rcases exists_gap_of_skipLine h with ⟨body, gap, rfl, hbody, hgap⟩ | ⟨hbody, hrest⟩
      · exact ⟨'/' :: '/' :: body ++ '\n' :: gap, by simp, .line hbody hgap⟩
      · exact ⟨'/' :: '/' :: cs', by rw [hrest, List.append_nil], .lastLine hbody hrest⟩
    · next cs' hcs =>
      cases hcs
      obtain ⟨body, gap, rfl, hbody, hgap⟩ := exists_gap_of_skipBlock h
      exact ⟨'/' :: '*' :: body ++ '*' :: '/' :: gap, by simp, .block hbody hgap⟩
    · next hcs =>
      cases hcs
      split at h
      · next hblank =>
        obtain ⟨gap, rfl, hgap⟩ := exists_gap_of_skip h
        exact ⟨c :: gap, rfl, .blank hblank hgap⟩
      · cases h
        exact ⟨[], rfl, .nil⟩

/-- Inside a line comment. -/
theorem exists_gap_of_skipLine : ∀ {pos : Nat} {cs : List Char} {p : Cursor},
    skipLine pos cs = .ok p →
    (∃ body gap, cs = body ++ '\n' :: gap ++ p.rest ∧ '\n' ∉ body ∧ Gap p.rest gap) ∨
      '\n' ∉ cs ∧ p.rest = []
  | pos, [], p, h => by
    unfold skipLine at h
    cases h
    exact .inr ⟨List.not_mem_nil, rfl⟩
  | pos, c :: cs, p, h => by
    unfold skipLine at h
    split at h
    · next hc =>
      subst hc
      obtain ⟨gap, rfl, hgap⟩ := exists_gap_of_skip h
      exact .inl ⟨[], gap, rfl, List.not_mem_nil, hgap⟩
    · next hc =>
      have hne : '\n' ≠ c := fun he => hc he.symm
      rcases exists_gap_of_skipLine h with ⟨body, gap, rfl, hbody, hgap⟩ | ⟨hbody, hrest⟩
      · exact .inl ⟨c :: body, gap, rfl, List.not_mem_cons_of_ne_of_not_mem hne hbody, hgap⟩
      · exact .inr ⟨List.not_mem_cons_of_ne_of_not_mem hne hbody, hrest⟩

/-- Inside a block comment. -/
theorem exists_gap_of_skipBlock : ∀ {start pos : Nat} {cs : List Char} {p : Cursor},
    skipBlock start pos cs = .ok p → ∃ body gap, cs = body ++ '*' :: '/' :: gap ++ p.rest ∧
      Text.containsText ['*', '/'] body = false ∧ Gap p.rest gap
  | start, pos, [], p, h => by
    unfold skipBlock at h
    cases h
  | start, pos, c :: cs, p, h => by
    unfold skipBlock at h
    split at h
    · next hcs => cases hcs
    · next cs' hcs =>
      cases hcs
      obtain ⟨gap, rfl, hgap⟩ := exists_gap_of_skip h
      exact ⟨[], gap, rfl, rfl, hgap⟩
    · next hopen hcs =>
      cases hcs
      obtain ⟨body, gap, rfl, hbody, hgap⟩ := exists_gap_of_skipBlock h
      refine ⟨c :: body, gap, rfl, ?_, hgap⟩
      rw [Text.containsText, hbody, Bool.or_false, Bool.eq_false_iff]
      -- An end mark at the first character would have been seen.
      intro hmark
      obtain ⟨more, hmore⟩ := List.isPrefixOf_iff_prefix.1 hmark
      cases hmore
      exact hopen _ rfl rfl

end

/-! ## Tokens -/

/-- The tokens of a single character. -/
def marks : List (Char × Lexeme) :=
  [('{', .openBrace), ('}', .closeBrace), ('[', .openBracket), (']', .closeBracket),
    (':', .colon), (',', .comma)]

theorem mem_marks_of_punctuation? {c : Char} {l : Lexeme} (h : punctuation? c = some l) :
    (c, l) ∈ marks := by
  unfold punctuation? at h
  split at h
  case h_7 => cases h
  all_goals
    cases h
    decide

/-- The ways in which a token is spelled, in front of the rest of a text. A number or a word goes on
as long as there are characters of which numbers and words consist. -/
inductive Takes (rest : List Char) : Lexeme → List Char → Prop
  | mark {c : Char} {l : Lexeme} (h : (c, l) ∈ marks) : Takes rest l [c]
  | string {quote : Char} {spelling s : List Char} (hquote : quote = '"' ∨ quote = '\'')
      (h : Spells quote spelling s) :
      Takes rest (.string (String.ofList s)) (quote :: spelling ++ [quote])
  | number {run : List Char} {x : Number} (hrun : run ≠ []) (hbare : run.all isBare = true)
      (hend : Stops rest) (h : Number.read? run = some x) :
      Takes rest (.number (String.ofList run) x) run
  | word {run : List Char} (hrun : run ≠ []) (hend : Stops rest)
      (h : run.all Text.isIdentifier = true) : Takes rest (.word (String.ofList run)) run
  | other {c : Char} (hmark : punctuation? c = none) (hbare : isBare c = false) :
      Takes rest (.other c) [c]

theorem Takes.ne_nil {rest spelling : List Char} {l : Lexeme} (h : Takes rest l spelling) :
    spelling ≠ [] := by
  cases h with
  | number hrun _ _ _ => exact hrun
  | word hrun _ _ => exact hrun
  | _ => exact List.cons_ne_nil _ _

theorem Takes.of_bareLexeme? {rest run : List Char} {l : Lexeme} (hrun : run ≠ [])
    (hbare : run.all isBare = true) (hend : Stops rest) (h : bareLexeme? run = some l) :
    Takes rest l run := by
  unfold bareLexeme? at h
  split at h
  · next x hx =>
    cases h
    exact .number hrun hbare hend hx
  · split at h
    · next hword =>
      cases h
      exact .word hrun hend hword
    · cases h

theorem stops_dropWhile (cs : List Char) : Stops (cs.dropWhile isBare) := by
  intro c hc
  have hhead := List.head?_dropWhile_not isBare cs
  rw [hc] at hhead
  simpa using hhead

/-- A token takes its first character and what belongs to it. -/
theorem exists_takes_of_tokenAt {pos : Nat} {c : Char} {cs : List Char} {t : Token} {q : Cursor}
    (h : tokenAt pos c cs = .ok (t, q)) :
    ∃ spelling, c :: cs = spelling ++ q.rest ∧ Takes q.rest t.lexeme spelling := by
  unfold tokenAt at h
  split at h
  · next hmark =>
    cases h
    exact ⟨[c], rfl, .mark (mem_marks_of_punctuation? hmark)⟩
  · next hmark =>
    split at h
    · next hquote =>
      obtain ⟨b, hb, hbt⟩ := map_eq_ok.1 h
      cases hbt
      obtain ⟨spelling, hspelling, rfl⟩ := exists_spelling hb
      exact ⟨c :: spelling ++ [c], by simp, .string hquote hspelling⟩
    · split at h
      · next hbare =>
        dsimp only at h
        split at h
        · next hl =>
          cases h
          refine ⟨c :: cs.takeWhile isBare, ?_, .of_bareLexeme? (List.cons_ne_nil _ _) ?_
            (stops_dropWhile cs) hl⟩
          · rw [List.cons_append, List.takeWhile_append_dropWhile]
          · rw [List.all_cons, hbare, Bool.true_and]
            exact List.all_takeWhile
        · cases h
      · next hbare =>
        cases h
        exact ⟨[c], rfl, .other hmark (Bool.eq_false_iff.2 hbare)⟩

/-! ## One call -/

/-- Characters that were passed over and those that are behind a place. -/
theorem Cursor.Reaches.of_append {p q : Cursor} {passed : List Char} (h : p.Reaches q)
    (hrest : p.rest = passed ++ q.rest) : q.pos = p.pos + Text.bytes passed := by
  obtain ⟨passed', hrest', hpos⟩ := h
  rw [hpos, List.append_cancel_right (hrest.symm.trans hrest')]

/-- At the end of the text there is nothing but a gap. -/
theorem next?_end {p : Cursor} {stop : Nat} (h : next? p = .ok (stop, none)) :
    Gap [] p.rest ∧ stop = p.pos + Text.bytes p.rest := by
  obtain ⟨s, hs, h⟩ := bind_eq_ok.1 h
  split at h
  · next hnil =>
    cases h
    obtain ⟨gap, hrest, hgap⟩ := exists_gap_of_skip hs
    have hpos := (skip_reaches hs).of_append hrest
    rw [hnil] at hrest hgap
    rw [List.append_nil] at hrest
    rw [hrest]
    exact ⟨hgap, hpos⟩
  · obtain ⟨_, -, he⟩ := map_eq_ok.1 h
    cases he

/-- A call that gives a token takes a gap and the token. -/
theorem next?_tile {p q : Cursor} {s : Nat} {t : Token} (h : next? p = .ok (s, some (t, q))) :
    ∃ gap spelling, p.rest = gap ++ (spelling ++ q.rest) ∧ Gap (spelling ++ q.rest) gap ∧
      Takes q.rest t.lexeme spelling ∧ t.start = p.pos + Text.bytes gap ∧
      t.stop = t.start + Text.bytes spelling ∧ q.pos = t.stop := by
  obtain ⟨⟨pos, rest⟩, hs, h⟩ := bind_eq_ok.1 h
  dsimp only at h
  split at h
  · cases h
  · next c cs =>
    obtain ⟨⟨t', q'⟩, ht, he⟩ := map_eq_ok.1 h
    cases he
    obtain ⟨gap, hrest, hgap⟩ := exists_gap_of_skip hs
    obtain ⟨spelling, hspelling, htakes⟩ := exists_takes_of_tokenAt ht
    obtain ⟨hreaches, rfl, hstop⟩ := tokenAt_reaches ht
    have hstart := (skip_reaches hs).of_append hrest
    have hbehind := ((Cursor.Reaches.char _ c cs).trans hreaches).of_append hspelling
    dsimp only at hrest hgap hstart hbehind
    rw [hspelling] at hrest hgap
    exact ⟨gap, spelling, hrest, hgap, htakes, hstart, hstop.trans hbehind, hstop.symm⟩

/-! ## All calls -/

/-- So many calls of the scanner, each behind the token before, give the tokens, and then the end of
the text or an error. -/
inductive Calls : Nat → Cursor → List Token → Ending → Prop
  | error {p : Cursor} {e : SyntaxError} (h : next? p = .error e) : Calls 1 p [] (.error e)
  | done {p : Cursor} {stop : Nat} (h : next? p = .ok (stop, none)) : Calls 1 p [] (.ok stop)
  | token {n s : Nat} {p q : Cursor} {t : Token} {ts : List Token} {ending : Ending}
      (h : next? p = .ok (s, some (t, q))) (hcalls : Calls n q ts ending) :
      Calls (n + 1) p (t :: ts) ending

/-- A text from an offset on is tokens as they are spelled, with gaps before, between and behind
them, up to the end of the text or to where an error is. -/
inductive Tiled : Nat → List Char → List Token → Ending → Prop
  | done {start : Nat} {gap : List Char} (hgap : Gap [] gap) :
      Tiled start gap [] (.ok (start + Text.bytes gap))
  | error {start : Nat} {passed rest : List Char} {e : SyntaxError}
      (he : e.offset = start + Text.bytes passed) : Tiled start (passed ++ rest) [] (.error e)
  | token {start : Nat} {gap spelling rest : List Char} {t : Token} {ts : List Token}
      {ending : Ending} (hgap : Gap (spelling ++ rest) gap) (ht : Takes rest t.lexeme spelling)
      (hstart : t.start = start + Text.bytes gap)
      (hstop : t.stop = t.start + Text.bytes spelling) (h : Tiled t.stop rest ts ending) :
      Tiled start (gap ++ (spelling ++ rest)) (t :: ts) ending

theorem scan_calls (p : Cursor) :
    Calls ((scan p).tokens.length + 1) p (scan p).tokens (scan p).ending := by
  rw [scan_eq]
  split
  · next hnext => exact .error hnext
  · next hnext => exact .done hnext
  · next t q hnext =>
    have hshorter := next?_shorter hnext
    exact .token hnext (scan_calls q)
termination_by p.rest.length

theorem scan_tiled (p : Cursor) : Tiled p.pos p.rest (scan p).tokens (scan p).ending := by
  rw [scan_eq]
  split
  · next hnext =>
    obtain ⟨-, q, ⟨passed, hrest, hpos⟩, hoffset⟩ := next?_error hnext
    rw [hrest]
    exact .error (hoffset.symm.trans hpos)
  · next hnext =>
    obtain ⟨hgap, hstop⟩ := next?_end hnext
    rw [hstop]
    exact .done hgap
  · next t q hnext =>
    have hshorter := next?_shorter hnext
    obtain ⟨gap, spelling, hrest, hgap, ht, hstart, hstop, hq⟩ := next?_tile hnext
    rw [hrest]
    exact .token hgap ht hstart hstop (hq ▸ scan_tiled q)
termination_by p.rest.length

/-- The token stands in the text, between its offsets, as it is spelled. -/
def Token.StandsIn (text : List Char) (t : Token) : Prop :=
  ∃ before spelling after, text = before ++ (spelling ++ after) ∧ t.start = Text.bytes before ∧
    t.stop = Text.bytes (before ++ spelling) ∧ Takes after t.lexeme spelling

namespace Token.StandsIn

variable {text : List Char} {t : Token}

theorem start_lt_stop (h : t.StandsIn text) : t.start < t.stop := by
  obtain ⟨before, spelling, after, -, hstart, hstop, ht⟩ := h
  have hpos := Nat.pos_of_ne_zero (mt Text.bytes_eq_zero.1 ht.ne_nil)
  rw [hstart, hstop, Text.bytes_append]
  omega

theorem isBoundary (h : t.StandsIn text) :
    Text.IsBoundary text t.start ∧ Text.IsBoundary text t.stop := by
  obtain ⟨before, spelling, after, rfl, hstart, hstop, -⟩ := h
  exact ⟨⟨before, spelling ++ after, rfl, hstart⟩,
    ⟨before ++ spelling, after, (List.append_assoc ..).symm, hstop⟩⟩

end Token.StandsIn

namespace Tiled

variable {start : Nat} {cs : List Char} {ts : List Token} {ending : Ending}

theorem start_le (h : Tiled start cs ts ending) : ∀ t ∈ ts, start ≤ t.start := by
  induction h with
  | done _ => exact nofun
  | error _ => exact nofun
  | token _ _ hstart hstop _ ih =>
    refine List.forall_mem_cons.2 ⟨by omega, fun u hu => ?_⟩
    have hle := ih u hu
    omega

theorem standsIn (h : Tiled start cs ts ending) {front : List Char}
    (hfront : start = Text.bytes front) : ∀ t ∈ ts, t.StandsIn (front ++ cs) := by
  induction h generalizing front with
  | done _ => exact nofun
  | error _ => exact nofun
  | @token start gap spelling rest t ts ending hgap ht hstart hstop _ ih =>
    have hbefore : t.start = Text.bytes (front ++ gap) := by
      rw [hstart, hfront, Text.bytes_append]
    have hbehind : t.stop = Text.bytes (front ++ gap ++ spelling) := by
      rw [hstop, hbefore, Text.bytes_append _ spelling]
    refine List.forall_mem_cons.2 ⟨⟨front ++ gap, spelling, rest, ?_, hbefore, hbehind, ht⟩, ?_⟩
    · rw [List.append_assoc]
    · intro u hu
      have hstands := ih hbehind u hu
      simpa only [List.append_assoc] using hstands

/-- One token ends before the next one begins. -/
theorem pairwise (h : Tiled start cs ts ending) : ts.Pairwise fun t u => t.stop ≤ u.start := by
  induction h with
  | done _ => exact .nil
  | error _ => exact .nil
  | token _ _ _ _ h ih => exact .cons h.start_le ih

/-- Each token takes a byte or more. -/
theorem length_le (h : Tiled start cs ts ending) : ts.length ≤ Text.bytes cs := by
  induction h with
  | done _ => exact Nat.zero_le _
  | error _ => exact Nat.zero_le _
  | token _ ht _ _ _ ih =>
    have hpos := Nat.pos_of_ne_zero (mt Text.bytes_eq_zero.1 ht.ne_nil)
    rw [List.length_cons, Text.bytes_append, Text.bytes_append]
    omega

end Tiled

/-- Scanning a text from the boundary of a character loses nothing and comes to an end. With at most
one call more than there are bytes left, the scanner comes to the end of the text or to an error. The
text from there on is the tokens as they are spelled, with nothing but blanks and comments before,
between and behind them. Each token takes up characters of the text between its offsets, and ends
before the next one begins. And an error is between two characters of the text, not in front of the
start. -/
theorem scan_tiles {text : List Char} {start : Nat} (h : Text.IsBoundary text start) :
    (∃ calls ≤ Text.bytes text - start + 1,
      Calls calls (.at text start) (scanAt text start).tokens (scanAt text start).ending) ∧
    Tiled start (Text.dropBytes start text) (scanAt text start).tokens
      (scanAt text start).ending ∧
    (∀ t ∈ (scanAt text start).tokens, start ≤ t.start ∧ t.start < t.stop ∧
      Text.IsBoundary text t.start ∧ Text.IsBoundary text t.stop ∧ t.StandsIn text) ∧
    ((scanAt text start).tokens.Pairwise fun t u => t.stop ≤ u.start) ∧
    (∀ e, (scanAt text start).ending = .error e →
      start ≤ e.offset ∧ e.offset ≤ Text.bytes text ∧ Text.IsBoundary text e.offset) ∧
    ∀ stop, (scanAt text start).ending = .ok stop → stop = Text.bytes text := by
  obtain ⟨front, behind, rfl, rfl⟩ := h
  have hplace : Cursor.at (front ++ behind) (Text.bytes front) = ⟨Text.bytes front, behind⟩ := by
    rw [Cursor.at, Text.dropBytes_append]
  have htiled := scan_tiled ⟨Text.bytes front, behind⟩
  rw [scanAt, hplace, Text.dropBytes_append, Text.bytes_append, Nat.add_sub_cancel_left]
  refine ⟨⟨_, Nat.succ_le_succ htiled.length_le, scan_calls _⟩, htiled, fun t ht => ?_,
    htiled.pairwise, fun e he => ?_, fun stop => scan_ending⟩
  · have hstands := htiled.standsIn rfl t ht
    obtain ⟨hstart, hstop⟩ := hstands.isBoundary
    exact ⟨htiled.start_le t ht, hstands.start_lt_stop, hstart, hstop, hstands⟩
  · obtain ⟨-, q, hq, hoffset⟩ := scan_error he
    have hboundary := hq.isBoundary
    rw [hoffset] at hboundary
    exact ⟨hoffset ▸ hq.pos_le, by simpa using hboundary.le_bytes, hboundary⟩

/-- A text behind whose first character, of two bytes, stand tokens of every kind, comments, and a
string that does not end. -/
def sampleTiles : List Char := "é\x7bn: 1.5, // c\n 'x' /* b */? \"".toList

theorem scan_tiles_sample :
    Text.IsBoundary sampleTiles 2 ∧
    (∃ calls ≤ 30, Calls calls (.at sampleTiles 2) (scanAt sampleTiles 2).tokens
      (.error ⟨30, .unterminatedString⟩)) ∧
    (scanAt sampleTiles 2).tokens.map (fun t => (t.start, t.stop)) =
      [(2, 3), (3, 4), (4, 5), (6, 9), (9, 10), (17, 20), (28, 29)] ∧
    (∀ t ∈ (scanAt sampleTiles 2).tokens, t.StandsIn sampleTiles) ∧
    Text.IsBoundary sampleTiles 30 := by
  have h : Text.IsBoundary sampleTiles 2 := ⟨['é'], _, rfl, rfl⟩
  have hending : (scanAt sampleTiles 2).ending = .error ⟨30, .unterminatedString⟩ := by
    decide +kernel
  obtain ⟨⟨calls, hle, hcalls⟩, -, htokens, -, herror, -⟩ := scan_tiles h
  rw [hending] at hcalls
  exact ⟨h, ⟨calls, hle, hcalls⟩, by decide +kernel, fun t ht => (htokens t ht).2.2.2.2,
    (herror _ hending).2.2⟩

end ColumnMetadata.Literal
