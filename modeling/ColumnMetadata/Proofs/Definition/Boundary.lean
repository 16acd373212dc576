import ColumnMetadata.Definition.File
import ColumnMetadata.Proofs.Definition.Block

/-!
# Where a block ends

The locator and the reader start at the same opening brace and see the same tokens. When the reader
takes a value there, it ends where the block does, and when it does not, it fails inside the block,
at a token. So no value in a located block ends before the block, and a brace at which a value can
be read opens a block that ends with the value (`Block.locate_agrees_with_reader`).
-/

namespace ColumnMetadata

open Literal

namespace Block

/-! ## The scan from an opening brace -/

theorem closing_eq_ok {e : Ending} {opened braces stop : Nat} {ts : List Token}
    (h : closing e opened braces ts = .ok stop) : ∃ t ∈ ts, t.stop = stop := by
  induction ts generalizing braces with
  | nil => exact absurd h closing_nil_ne
  | cons t ts ih =>
    unfold closing at h
    split at h
    · obtain ⟨t', ht', hstop⟩ := ih h
      exact ⟨t', List.mem_cons_of_mem _ ht', hstop⟩
    · split at h
      · cases h
        exact ⟨t, List.mem_cons_self, rfl⟩
      · obtain ⟨t', ht', hstop⟩ := ih h
        exact ⟨t', List.mem_cons_of_mem _ ht', hstop⟩
    · obtain ⟨t', ht', hstop⟩ := ih h
      exact ⟨t', List.mem_cons_of_mem _ ht', hstop⟩

/-- The search fails where the scan does, or when the brace is never closed. -/
theorem closing_eq_error {e : Ending} {opened braces : Nat} {ts : List Token} {err : SyntaxError}
    (h : closing e opened braces ts = .error err) :
    e = .error err ∨ err = ⟨opened, .blockNeverClosed⟩ := by
  induction ts generalizing braces with
  | nil =>
    unfold closing at h
    split at h
    · cases h
      exact .inl rfl
    · cases h
      exact .inr rfl
  | cons t ts ih =>
    unfold closing at h
    split at h
    · exact ih h
    · split at h
      · cases h
      · exact ih h
    · exact ih h

theorem locate_eq_error {text : List Char} {err : SyntaxError} (h : locate text = .error err) :
    err.cause ≠ .contentInBlock := by
  unfold locate at h
  split at h
  · cases h
  · rcases closing_eq_error (map_eq_error.1 h) with hending | rfl
    · intro hcause
      have hlexical := (scan_error hending).lexical
      rw [hcause] at hlexical
      exact hlexical
    · nofun

section Brace

variable {s : Scan} {start opened stop : Nat} {t : Token} {ts : List Token}
  (htokens : s.tokens = t :: ts) (ht : t.lexeme = .openBrace)

include htokens ht in
/-- Where the reader takes a value from its opening brace on, the search for the closing brace ends
in the same place. -/
theorem closing_of_value {v : Value} {u : Unread} (h : s.value start = .ok (v, u)) :
    closing s.ending opened 0 s.tokens = .ok u.pos := by
  obtain ⟨us, hus, hpos, hderived⟩ := value_sound _ _ (Nat.zero_add _) h
  obtain ⟨l, ls, hls, -⟩ := hderived.ne_nil
  obtain ⟨t', us, rfl, ht', -⟩ := List.map_eq_cons_iff.1 hls
  dsimp only at hus
  obtain ⟨rfl, -⟩ := List.cons.inj (htokens.symm.trans hus)
  rw [← ht', ht] at hls
  rw [hls] at hderived
  rw [hus, hpos]
  exact closing_of_isValue _ opened start hderived hls _

include htokens ht in
/-- Where the search ends and the reader fails, it fails at a token that the search came to. -/
theorem failsAt_of_value {err : SyntaxError} (h : s.value start = .error err)
    (hclosing : closing s.ending opened 0 s.tokens = .ok stop) :
    FailsAt s.ending opened stop s.tokens err := by
  have hdepth : 0 < maxDepth := by decide
  have hroom : 0 + 1 + (maxDepth - 1) = maxDepth := by decide
  rw [Scan.value, htokens, value_openBrace _ _ hdepth start ht] at h
  rw [htokens, closing_openBrace ht] at hclosing
  rw [htokens]
  have hlength : 2 * ts.length + 1 ≤ 2 * (t :: ts).length + 1 := by
    rw [List.length_cons]
    omega
  exact (members_error _ hroom hlength Nat.one_pos hclosing h).append [t]

end Brace

section Opening

variable {text before gap rest : List Char}
  (hopening : opening? none text = some (before, gap, rest))

include hopening in
theorem scanAt_opening :
    scanAt text (Text.bytes (before ++ keyword ++ gap)) =
      scan ⟨Text.bytes (before ++ keyword ++ gap), rest⟩ := by
  rw [scanAt, Cursor.at, (opening?_eq_some hopening).1, Text.dropBytes_append]

include hopening in
theorem exists_brace :
    ∃ t ts, (scanAt text (Text.bytes (before ++ keyword ++ gap))).tokens = t :: ts ∧
      t.lexeme = .openBrace := by
  rw [scanAt_opening hopening]
  obtain ⟨-, -, more, rfl⟩ := opening?_eq_some hopening
  obtain ⟨ts, hts, hscan⟩ :=
    scannedAs_punctuation (c := '{') rfl (Text.bytes (before ++ keyword ++ gap)) more
  obtain ⟨t, us, rfl, ht, -⟩ := List.map_eq_cons_iff.1 hts
  rw [List.singleton_append] at hscan
  rw [hscan]
  exact ⟨t, _, rfl, ht⟩

include hopening in
/-- The block that is located where its closing brace is found. -/
theorem exists_located {stop : Nat}
    (hclosing : closing (scanAt text (Text.bytes (before ++ keyword ++ gap))).ending
      (Text.bytes (before ++ keyword ++ gap)) 0
      (scanAt text (Text.bytes (before ++ keyword ++ gap))).tokens = .ok stop) :
    ∃ b, locate text = .ok (some b) ∧ b.before = before ∧ b.gap = gap ∧ b.stop = stop := by
  rw [scanAt_opening hopening] at hclosing
  -- The search ends behind a token, so at a place that the scan came to.
  obtain ⟨t, ht, rfl⟩ := closing_eq_ok hclosing
  obtain ⟨q, ⟨body, hbody, hpos⟩, hstop⟩ := (scan_carries _).exists_stop ht
  dsimp only at hbody hpos
  refine ⟨⟨before, gap, body, q.rest⟩, ?_, rfl, rfl, ?_⟩
  · unfold locate
    rw [hopening]
    refine map_eq_ok.2 ⟨_, hclosing, ?_⟩
    rw [← hstop, hpos, Nat.add_sub_cancel_left, hbody, Text.takeBytes_append, Text.dropBytes_append]
  · rw [← hstop, hpos]
    simp only [Block.stop, bodyStart, start, Text.bytes_append, Nat.add_assoc]

end Opening

section Located

variable {text : List Char} {b : Block} (h : locate text = .ok (some b))

include h in
/-- A located block begins where one opens, and ends where the search for its closing brace does. -/
theorem closing_of_locate :
    (∃ rest, opening? none text = some (b.before, b.gap, rest)) ∧
      closing (scanAt text b.bodyStart).ending b.bodyStart 0 (scanAt text b.bodyStart).tokens =
        .ok b.stop := by
  obtain ⟨rest, hopening, -⟩ := exists_opening h
  have hlocate := h
  unfold locate at hlocate
  rw [hopening] at hlocate
  obtain ⟨stop, hclosing, -⟩ := map_eq_ok.1 hlocate
  rw [← scanAt_opening hopening] at hclosing
  obtain ⟨b', hb', -, -, rfl⟩ := exists_located hopening hclosing
  cases h.symm.trans hb'
  rw [List.append_assoc, ← bodyStart_eq] at hclosing
  exact ⟨⟨rest, hopening⟩, hclosing⟩

include h in
theorem exists_bodyBrace :
    ∃ t ts, (scanAt text b.bodyStart).tokens = t :: ts ∧ t.lexeme = .openBrace := by
  obtain ⟨⟨rest, hopening⟩, -⟩ := closing_of_locate h
  have hbrace := exists_brace hopening
  rwa [List.append_assoc, ← bodyStart_eq] at hbrace

include h in
/-- A value at the brace of a located block ends where the block does. -/
theorem stop_of_parseAt {v : Value} {stop : Nat}
    (hv : parseAt text b.bodyStart = .ok (v, stop)) : stop = b.stop := by
  obtain ⟨⟨w, u⟩, hw, he⟩ := map_eq_ok.1 hv
  cases he
  obtain ⟨t, ts, htokens, ht⟩ := exists_bodyBrace h
  have hclosing := (closing_of_locate h).2
  rw [closing_of_value htokens ht hw] at hclosing
  exact Except.ok.inj hclosing

include h in
/-- Without a value at the brace of a located block, the error is reported at a token of the block.
-/
theorem offset_of_parseAt {err : SyntaxError} (herr : parseAt text b.bodyStart = .error err) :
    b.bodyStart ≤ err.offset ∧ err.offset < b.stop ∧ Text.IsBoundary text err.offset ∧
      err.cause ≠ .contentInBlock := by
  obtain ⟨t, ts, htokens, ht⟩ := exists_bodyBrace h
  have hvalue := map_eq_error.1 herr
  obtain ⟨before, t', after, depth, hts, hoffset, hclosing, hcause⟩ :=
    failsAt_of_value htokens ht hvalue (closing_of_locate h).2
  have hcarries := scan_carries (.at text b.bodyStart)
  rw [← scanAt, hts] at hcarries
  obtain ⟨q, hq, hcarries⟩ := hcarries.drop
  obtain ⟨s, hs, hstart⟩ := hcarries.exists_start
  obtain ⟨last, hlast, hstop⟩ := closing_eq_ok hclosing
  have hreaches := hq.trans hs
  have hle : b.bodyStart ≤ s.pos := hreaches.pos_le
  refine ⟨?_, ?_, ?_, hcause⟩
  · rw [hoffset, ← hstart]
    exact hle
  · rw [hoffset, ← hstop]
    exact hcarries.start_lt_stop hlast
  · rw [Cursor.at, ← text_of_locate h, bodyStart_eq, text_eq_body, Text.dropBytes_append]
      at hreaches
    rw [hoffset, ← hstart, ← text_of_locate h, text_eq_body]
    exact hreaches.isBoundary

end Located

end Block

/-! ## The two agree -/

/-- The error for something behind the value of a block is never reported. -/
theorem Definition.parse_ne_contentInBlock (text : String) (offset : Nat) :
    Definition.parse text ≠ .error (.malformed ⟨offset, .contentInBlock⟩) := by
  intro h
  rcases bind_eq_error.1 h with h | ⟨located, hlocated, h⟩
  · obtain ⟨err, herr, he⟩ := mapError_eq_error.1 h
    cases he
    exact Block.locate_eq_error herr rfl
  · rw [mapError_eq_ok] at hlocated
    cases located with
    | none => cases h
    | some b =>
      rcases bind_eq_error.1 h with h | ⟨m, -, h⟩
      · rcases bind_eq_error.1 h with h | ⟨⟨v, stop⟩, hv, h⟩
        · obtain ⟨err, herr, he⟩ := mapError_eq_error.1 h
          cases he
          exact (Block.offset_of_parseAt hlocated herr).2.2.2 rfl
        · rw [mapError_eq_ok] at hv
          dsimp only at h
          rw [if_pos (Block.stop_of_parseAt hlocated hv)] at h
          obtain ⟨cause, -, he⟩ := mapError_eq_error.1 h
          cases he
      · cases h

/-- The locator and the reader agree on where a block ends. A value at the brace of a located block
ends where the block does, so that nothing can be left over in the block. Without a value there, the
error is reported inside the block, between two characters. And where a block opens first and a
value can be read at its brace, the block that ends with the value is located. -/
theorem Block.locate_agrees_with_reader (text : String) :
    (∀ b, Block.locate text.toList = .ok (some b) →
      (∀ v stop, parseAt text.toList b.bodyStart = .ok (v, stop) → stop = b.stop) ∧
      ∀ err, parseAt text.toList b.bodyStart = .error err →
        b.bodyStart ≤ err.offset ∧ err.offset < b.stop ∧
          Text.IsBoundary text.toList err.offset) ∧
    (∀ offset, Definition.parse text ≠ .error (.malformed ⟨offset, .contentInBlock⟩)) ∧
    ∀ before gap rest v stop, Block.opening? none text.toList = some (before, gap, rest) →
      parseAt text.toList (Text.bytes (before ++ Block.keyword ++ gap)) = .ok (v, stop) →
      ∃ b, Block.locate text.toList = .ok (some b) ∧ b.before = before ∧ b.gap = gap ∧
        b.stop = stop := by
  refine ⟨fun b hb => ⟨fun v stop => stop_of_parseAt hb, fun err herr => ?_⟩,
    Definition.parse_ne_contentInBlock text, fun before gap rest v stop hopening hv => ?_⟩
  · obtain ⟨hstart, hstop, hboundary, -⟩ := offset_of_parseAt hb herr
    exact ⟨hstart, hstop, hboundary⟩
  · obtain ⟨⟨w, u⟩, hw, he⟩ := map_eq_ok.1 hv
    cases he
    obtain ⟨t, ts, htokens, ht⟩ := exists_brace hopening
    exact exists_located hopening (closing_of_value htokens ht hw)

end ColumnMetadata
