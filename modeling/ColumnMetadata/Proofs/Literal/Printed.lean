import ColumnMetadata.Proofs.Literal.Layout
import ColumnMetadata.Proofs.Literal.Scanning

/-!
# Scanning printed values

A layout of tokens is scanned as them (`Prints.scannedAs`): an escaped string is read as the string,
the printed words and numbers end where the printer ends them, and line breaks and indentation count
for nothing. So the pretty form of an object is scanned as its tokens, up to its closing brace
(`scan_prettyObject`).
-/

namespace ColumnMetadata.Literal

open Value (escape escapeChar quote pretty)

/-! ## Strings -/

theorem unit?_control : ∀ n < 32,
    unit? '0' '0' (Value.hexDigit (n / 16)) (Value.hexDigit (n % 16)) = some n ∧
      isHighSurrogate n = false ∧ isLowSurrogate n = false := by decide

/-- A character that is not special stands for itself. -/
theorem stringBody_plain {q c : Char} (start pos : Nat) (cs : List Char) (hquote : c ≠ q)
    (hbreak : c ≠ '\n') (hslash : c ≠ '\\') :
    stringBody q start pos (c :: cs) =
      (stringBody q start (pos + c.utf8Size) cs).map (.cons c) := by
  rw [stringBody.eq_def]
  simp only [if_neg hquote, if_neg hbreak, if_neg hslash]

/-- A backslash and a character that is not the mark of a unit. -/
theorem stringBody_escaped {quote e c : Char} (start pos : Nat) (cs : List Char)
    (hquote : quote ≠ '\\') (hu : e ≠ 'u') (he : escaped e = some c) :
    stringBody quote start pos ('\\' :: e :: cs) =
      (stringBody quote start (pos + 1 + e.utf8Size) cs).map (.cons c) := by
  rw [stringBody.eq_def]
  simp [Ne.symm hquote, hu, he]

/-- A unit that is a character by itself. -/
theorem stringBody_unit {quote a b c d : Char} {u : Nat} (start pos : Nat) (cs : List Char)
    (hquote : quote ≠ '\\') (hu : unit? a b c d = some u) (hhigh : isHighSurrogate u = false)
    (hlow : isLowSurrogate u = false) :
    stringBody quote start pos ('\\' :: 'u' :: a :: b :: c :: d :: cs) =
      (stringBody quote start (pos + 6) cs).map (.cons (Char.ofNat u)) := by
  rw [stringBody.eq_def]
  simp [Ne.symm hquote, hu, hhigh, hlow]

/-- A pair of units for a character beyond those that one unit writes. -/
theorem stringBody_pair {quote a b c d a' b' c' d' : Char} {u v : Nat} (start pos : Nat)
    (cs : List Char) (hquote : quote ≠ '\\') (hu : unit? a b c d = some u)
    (hv : unit? a' b' c' d' = some v) (hhigh : isHighSurrogate u = true)
    (hlow : isLowSurrogate v = true) :
    stringBody quote start pos
        ('\\' :: 'u' :: a :: b :: c :: d :: '\\' :: 'u' :: a' :: b' :: c' :: d' :: cs) =
      (stringBody quote start (pos + 12) cs).map (.cons (ofSurrogates u v)) := by
  rw [stringBody.eq_def]
  simp [Ne.symm hquote, hu, hv, hhigh, hlow]

/-- A printed character is read as the character. -/
theorem stringBody_escapeChar (start pos : Nat) (c : Char) (cs : List Char) :
    stringBody '"' start pos (escapeChar c ++ cs) =
      (stringBody '"' start (pos + Text.bytes (escapeChar c)) cs).map (.cons c) := by
  unfold escapeChar
  split
  case h_8 hquote hslash _ _ hbreak _ _ =>
    split
    · next hc =>
      obtain ⟨hunit, hhigh, hlow⟩ := unit?_control c.toNat hc
      have hbytes := bytes_of_unit? hunit
      rw [Text.bytes_cons, Text.bytes_cons, hbytes]
      have := stringBody_unit start pos cs (by decide : '"' ≠ '\\') hunit hhigh hlow
      rwa [Char.ofNat_toNat] at this
    · have := stringBody_plain start pos cs (q := '"') hquote hbreak hslash
      simpa using this
  all_goals exact stringBody_escaped start pos cs (by decide) (by decide) rfl

/-- A printed string is read as the string. -/
theorem stringBody_escape (start pos : Nat) (s cs : List Char) :
    stringBody '"' start pos (escape s ++ '"' :: cs) =
      .ok ⟨s, ⟨pos + Text.bytes (escape s) + 1, cs⟩⟩ := by
  induction s generalizing pos with
  | nil =>
    rw [escape, List.nil_append, stringBody.eq_def]
    rfl
  | cons c s ih =>
    rw [escape, List.append_assoc, stringBody_escapeChar, ih, Text.bytes_append, ← Nat.add_assoc]
    rfl

/-! ## Tokens -/

/-- Where no blank and no comment begins there is nothing to skip. -/
theorem skip_of_not_blank {c : Char} (pos : Nat) (cs : List Char) (h : Text.isBlank c = false)
    (hslash : c ≠ '/') : skip pos (c :: cs) = .ok ⟨pos, c :: cs⟩ := by
  rw [skip.eq_def]
  simp [h, hslash]

theorem next?_of_not_blank {c : Char} (pos : Nat) (cs : List Char) (h : Text.isBlank c = false)
    (hslash : c ≠ '/') :
    next? ⟨pos, c :: cs⟩ = (tokenAt pos c cs).map fun t => (pos, some t) := by
  rw [next?, skip_of_not_blank pos cs h hslash]
  rfl

/-- Blanks are passed over. -/
theorem skip_blanks {blanks : List Char} (h : ∀ c ∈ blanks, Text.isBlank c = true) (pos : Nat)
    (rest : List Char) : skip pos (blanks ++ rest) = skip (pos + Text.bytes blanks) rest := by
  induction blanks generalizing pos with
  | nil => rfl
  | cons c cs ih =>
    have hc := h c List.mem_cons_self
    have hslash : c ≠ '/' := by
      rintro rfl
      exact absurd hc (by decide)
    rw [List.cons_append, skip.eq_def]
    simp [hslash, hc, ih (fun d hd => h d (List.mem_cons_of_mem _ hd)), Nat.add_assoc]

theorem scannedAs_blanks {blanks : List Char} (h : ∀ c ∈ blanks, Text.isBlank c = true) (pos : Nat)
    (rest : List Char) : ScannedAs pos blanks rest [] := by
  refine .blank ?_
  rw [next?, next?, skip_blanks h]

theorem scannedAs_punctuation {c : Char} {l : Lexeme} (h : punctuation? c = some l) (pos : Nat)
    (rest : List Char) : ScannedAs pos [c] rest [l] := by
  have hc : Text.isBlank c = false ∧ c ≠ '/' := by
    unfold punctuation? at h
    split at h <;> first | exact ⟨rfl, by decide⟩ | cases h
  refine .token (p := pos) (t := ⟨l, pos, pos + c.utf8Size⟩) ?_ rfl
  rw [List.singleton_append, next?_of_not_blank pos rest hc.1 hc.2, tokenAt]
  simp [h, Except.map]

theorem scannedAs_quote (s : String) (pos : Nat) (rest : List Char) :
    ScannedAs pos (quote s) rest [.string s] := by
  have hbytes : pos + 1 + Text.bytes (escape s.toList) + 1 = pos + Text.bytes (quote s) := by
    simp [quote, show '"'.utf8Size = 1 from rfl]
    omega
  refine .token (p := pos) (t := ⟨.string s, pos, pos + Text.bytes (quote s)⟩) ?_ rfl
  rw [quote, List.cons_append, List.append_assoc, next?_of_not_blank pos _ rfl (by decide)]
  have hbody := stringBody_escape pos (pos + 1) s.toList rest
  rw [hbytes] at hbody
  simp [tokenAt, punctuation?, show '"'.utf8Size = 1 from rfl, hbody, Except.map, quote]

/-! ## Words and numbers -/

/-- A character with which no blank, comment, string or punctuation mark begins. -/
def BeginsRun (c : Char) : Prop :=
  Text.isBlank c = false ∧ c ≠ '/' ∧ punctuation? c = none ∧ c ≠ '"' ∧ c ≠ '\''

instance (c : Char) : Decidable (BeginsRun c) := inferInstanceAs (Decidable (_ ∧ _))

theorem beginsRun_ofNat : ∀ n < 58, 48 ≤ n → BeginsRun (Char.ofNat n) := by decide

theorem beginsRun_of_isDigit {c : Char} (h : c.isDigit = true) : BeginsRun c := by
  simp only [Char.isDigit, Bool.and_eq_true, decide_eq_true_eq, ge_iff_le,
    UInt32.le_iff_toNat_le] at h
  have := beginsRun_ofNat c.toNat (Nat.lt_succ_of_le h.2) h.1
  rwa [Char.ofNat_toNat] at this

/-- A run of word characters up to its end is what the run says. -/
theorem scannedAs_run {c : Char} {cs rest : List Char} {l : Lexeme} (hc : BeginsRun c)
    (hrun : ∀ d ∈ c :: cs, isBare d = true) (hl : bareLexeme? (c :: cs) = some l)
    (hrest : Stops rest) (pos : Nat) : ScannedAs pos (c :: cs) rest [l] := by
  obtain ⟨hblank, hslash, hmark, hdouble, hsingle⟩ := hc
  have hcs : ∀ d ∈ cs, isBare d = true := fun d hd => hrun d (List.mem_cons_of_mem c hd)
  refine .token (p := pos) (t := ⟨l, pos, pos + Text.bytes (c :: cs)⟩) ?_ rfl
  rw [List.cons_append, next?_of_not_blank pos _ hblank hslash, tokenAt, hmark]
  simp [hdouble, hsingle, hrun c List.mem_cons_self, takeWhile_append_of_head hcs hrest,
    dropWhile_append_of_head hcs hrest, hl, Except.map]

theorem isBare_of_isNumeral {c : Char} (h : Number.isNumeral c = true) : isBare c = true := by
  simp only [Number.isNumeral, Bool.or_eq_true, beq_iff_eq] at h
  rcases h with ((((h | rfl) | rfl) | rfl) | rfl) | rfl
  · have halnum : c.isAlphanum = true := by simp [Char.isAlphanum, h]
    simp [isBare, Text.isIdentifier, Text.isAlphanumeric_of_isAlphanum halnum]
  all_goals rfl

/-- The whole text of a number, up to its end. -/
theorem scannedAs_numeral {cs : List Char} {x : Number} (hx : Number.read? cs = some x)
    {rest : List Char} (hrest : Stops rest) (pos : Nat) :
    ScannedAs pos cs rest [.number (String.ofList cs) x] := by
  obtain ⟨hall, c, cs', rfl, hc⟩ := Number.isNumeral_of_read? hx
  have hbegins : BeginsRun c := by
    rcases hc with hc | rfl
    · exact beginsRun_of_isDigit hc
    · decide
  have hlexeme : bareLexeme? (c :: cs') = some (.number (String.ofList (c :: cs')) x) := by
    rw [bareLexeme?, hx]
  exact scannedAs_run hbegins (fun d hd => isBare_of_isNumeral (hall d hd)) hlexeme hrest pos

theorem scannedAs_number {x : Number} (hx : x.Legible) {rest : List Char} (hrest : Stops rest)
    (pos : Nat) : ScannedAs pos x.text rest [.number (String.ofList x.text) x.reread] :=
  scannedAs_numeral hx.read?_text hrest pos

/-- A leaf is one token, where no further character of words and numbers follows. -/
theorem scannedAs_leaf {v : Value} (hv : v.lexemes = [v.leafLexeme])
    (hnumbers : ∀ x ∈ v.numbers, x.Legible) {rest : List Char} (hrest : Stops rest) (pos : Nat) :
    ScannedAs pos v.leaf rest v.lexemes := by
  rw [hv]
  cases v with
  | null => exact scannedAs_run (by decide) (List.all_eq_true.1 rfl) rfl hrest pos
  | bool b => cases b <;> exact scannedAs_run (by decide) (List.all_eq_true.1 rfl) rfl hrest pos
  | number x => exact scannedAs_number (hnumbers x List.mem_cons_self) hrest pos
  | string s => exact scannedAs_quote s pos rest
  | array vs => cases vs <;> simp [Value.lexemes] at hv
  | object fs => rcases fs with _ | ⟨⟨k, v⟩, fs⟩ <;> simp [Value.lexemes] at hv

/-! ## Layouts -/

theorem isBlank_of_layout {c : Char} (h : c = ' ' ∨ c = '\n') : Text.isBlank c = true := by
  rcases h with rfl | rfl
  all_goals rfl

/-- A layout is scanned as its tokens. -/
theorem Prints.scannedAs {rest cs : List Char} {ls : List Lexeme} (h : Prints rest cs ls)
    (pos : Nat) : ScannedAs pos cs rest ls := by
  induction h generalizing pos with
  | nil => exact .nil pos rest
  | @blank c cs ls hc _ ih =>
    have hblank := scannedAs_blanks (List.forall_mem_singleton.2 (isBlank_of_layout hc))
    exact .append (a := [c]) (l := []) (hblank pos _) (ih _)
  | @mark c l cs ls hl _ ih =>
    exact .append (a := [c]) (l := [l]) (scannedAs_punctuation hl pos _) (ih _)
  | @leaf v cs ls hv hnumbers hend _ ih =>
    have hleaf := scannedAs_leaf hv hnumbers hend pos
    rw [hv] at hleaf
    exact .append (l := [v.leafLexeme]) hleaf (ih _)

/-- The pretty form of an object is scanned up to its closing brace, whatever follows it. -/
theorem scan_prettyObject {fs : List (String × Value)}
    (hfs : ∀ x ∈ (Value.object fs).numbers, x.Legible) (level pos : Nat) (rest : List Char) :
    ∃ (ts : List Token) (t : Token),
      (ts ++ [t]).map Token.lexeme = (Value.object fs).lexemes ∧
      t.stop = pos + Text.bytes (pretty level (.object fs)) ∧
      scan ⟨pos, pretty level (.object fs) ++ rest⟩ =
        (scan ⟨t.stop, rest⟩).prepend (ts ++ [t]) := by
  obtain ⟨front, ls, hpretty, hls, hfront⟩ := pretty_object_split hfs level
  obtain ⟨ts, hts, hscan⟩ := (hfront ('}' :: rest)).scannedAs pos
  let close := pos + Text.bytes front
  have hstop : close + 1 = pos + Text.bytes (pretty level (.object fs)) := by
    rw [hpretty, Text.bytes_append, ← Nat.add_assoc]
    rfl
  refine ⟨ts, ⟨.closeBrace, close, close + 1⟩, ?_, hstop, ?_⟩
  · rw [List.map_append, hts, hls]
    rfl
  · have hbrace : next? ⟨close, '}' :: rest⟩ =
        .ok (close, some (⟨.closeBrace, close, close + 1⟩, ⟨close + 1, rest⟩)) :=
      next?_of_not_blank close rest rfl (by decide)
    rw [hpretty, List.append_assoc, List.singleton_append, hscan, scan_eq, hbrace,
      Scan.prepend_append]
    rfl

end ColumnMetadata.Literal
