import Mathlib.Data.List.Forall2
import ColumnMetadata.Proofs.Literal.Printed

/-!
# The spellings of a string

A character of a string literal can be written in several ways (`SpellsChar`), and escaped line
breaks may stand anywhere between characters (`Spells`). Each spelling of a character is read as the
character (`SpellsChar.stringBody_eq`), so each spelling of a string is passed over as the string,
whatever follows it (`Spells.stringBody_eq`). What follows may be the quote that ends the literal,
or a surrogate without its other half, which is an error (`stringBody_unpaired`). Nothing else is
read: what stands between the quotes of a literal is a spelling (`exists_spelling`).
-/

namespace ColumnMetadata.Literal

/-! ## Digits -/

/-- A digit of base sixteen, in lower or in upper case. -/
def IsHexDigit (n : Nat) (c : Char) : Prop := c = n.digitChar ∨ c = n.digitChar.toUpper

/-- Four digits of base sixteen that write a 16-bit unit. -/
def WritesUnit (u : Nat) (digits : List Char) : Prop :=
  u < 0x10000 ∧
    List.Forall₂ IsHexDigit [u / 0x1000, u / 0x100 % 16, u / 0x10 % 16, u % 16] digits

theorem hexValue?_digitChar : ∀ n < 16,
    hexValue? n.digitChar = some n ∧ hexValue? n.digitChar.toUpper = some n := by decide

theorem isHexDigit_ofNat : ∀ k < 128, ∀ n ∈ hexValue? (Char.ofNat k),
    n < 16 ∧ (Char.ofNat k = n.digitChar ∨ Char.ofNat k = n.digitChar.toUpper) := by
  decide

theorem hexValue?_eq_some_iff {c : Char} {n : Nat} :
    hexValue? c = some n ↔ n < 16 ∧ IsHexDigit n c := by
  constructor
  · intro h
    have hlt : c.toNat < 128 := Nat.lt_succ_of_le
      (UInt32.le_iff_toNat_le.1 (Char.utf8Size_eq_one_iff.1 (utf8Size_of_hexValue? h)))
    have hdigit := isHexDigit_ofNat c.toNat hlt n
    rw [Char.ofNat_toNat] at hdigit
    exact hdigit h
  · rintro ⟨hn, rfl | rfl⟩
    · exact (hexValue?_digitChar n hn).1
    · exact (hexValue?_digitChar n hn).2

theorem unit?_eq_some_iff {a b c d : Char} {u : Nat} :
    unit? a b c d = some u ↔ WritesUnit u [a, b, c, d] := by
  simp only [unit?, Option.bind_eq_bind, Option.bind_eq_some_iff, hexValue?_eq_some_iff,
    Option.some.injEq]
  constructor
  · rintro ⟨w, ⟨hw, ha⟩, x, ⟨hx, hb⟩, y, ⟨hy, hc⟩, z, ⟨hz, hd⟩, rfl⟩
    refine ⟨by omega, .cons ?_ (.cons ?_ (.cons ?_ (.cons ?_ .nil)))⟩
    · rwa [show (((w * 16 + x) * 16 + y) * 16 + z) / 0x1000 = w by omega]
    · rwa [show (((w * 16 + x) * 16 + y) * 16 + z) / 0x100 % 16 = x by omega]
    · rwa [show (((w * 16 + x) * 16 + y) * 16 + z) / 0x10 % 16 = y by omega]
    · rwa [show (((w * 16 + x) * 16 + y) * 16 + z) % 16 = z by omega]
  · rintro ⟨hu, hdigits⟩
    simp only [List.forall₂_cons, List.forall₂_nil_left_iff, and_true] at hdigits
    obtain ⟨ha, hb, hc, hd⟩ := hdigits
    exact ⟨_, ⟨by omega, ha⟩, _, ⟨by omega, hb⟩, _, ⟨by omega, hc⟩, _, ⟨by omega, hd⟩, by omega⟩

theorem writesUnit_iff {u : Nat} {digits : List Char} :
    WritesUnit u digits ↔ ∃ a b c d, digits = [a, b, c, d] ∧ unit? a b c d = some u := by
  constructor
  · intro h
    have hlength := h.2.length_eq
    match digits with
    | [a, b, c, d] => exact ⟨a, b, c, d, rfl, unit?_eq_some_iff.2 h⟩
  · rintro ⟨a, b, c, d, rfl, h⟩
    exact unit?_eq_some_iff.1 h

/-! ## Spellings -/

/-- The characters with an escape of one letter, behind the letters. -/
def shortEscapes : List (Char × Char) :=
  [('n', '\n'), ('t', '\t'), ('r', '\r'), ('b', '\x08'), ('f', '\x0c')]

/-- The ways of writing a character in a literal between the given quotes. -/
inductive SpellsChar (quote c : Char) : List Char → Prop
  /-- As it is. -/
  | plain (hquote : c ≠ quote) (hslash : c ≠ '\\') (hbreak : c ≠ '\n') : SpellsChar quote c [c]
  /-- Behind a backslash. -/
  | slashed (h : c ∉ ['n', 't', 'r', 'b', 'f', 'u', '\n']) : SpellsChar quote c ['\\', c]
  /-- By its letter. -/
  | letter {e : Char} (h : (e, c) ∈ shortEscapes) : SpellsChar quote c ['\\', e]
  /-- By its number. -/
  | unit {digits : List Char} (h : WritesUnit c.toNat digits) :
      SpellsChar quote c ('\\' :: 'u' :: digits)
  /-- By the two surrogates for its number. -/
  | pair {high low : List Char} (hc : 0x10000 ≤ c.toNat)
      (hhigh : WritesUnit (0xD800 + (c.toNat - 0x10000) / 0x400) high)
      (hlow : WritesUnit (0xDC00 + (c.toNat - 0x10000) % 0x400) low) :
      SpellsChar quote c ('\\' :: 'u' :: high ++ '\\' :: 'u' :: low)

/-- The ways of writing a string in a literal: its characters one after the other, with escaped line
breaks between them. -/
inductive Spells (quote : Char) : List Char → List Char → Prop
  | nil : Spells quote [] []
  | char {c : Char} {spelling rest s : List Char} (h : SpellsChar quote c spelling)
      (hrest : Spells quote rest s) : Spells quote (spelling ++ rest) (c :: s)
  | lineBreak {rest s : List Char} (hrest : Spells quote rest s) :
      Spells quote ('\\' :: '\n' :: rest) s

/-- A surrogate without its other half: a second half, or a first half that no second one
follows. -/
def Unpaired (u : Nat) (rest : List Char) : Prop :=
  (0xDC00 ≤ u ∧ u < 0xE000) ∨
    (0xD800 ≤ u ∧ u < 0xDC00) ∧ ∀ low digits more, rest = '\\' :: 'u' :: digits ++ more →
      WritesUnit low digits → ¬(0xDC00 ≤ low ∧ low < 0xE000)

theorem isHighSurrogate_iff {u : Nat} : isHighSurrogate u = true ↔ 0xD800 ≤ u ∧ u < 0xDC00 := by
  simp [isHighSurrogate]

theorem isLowSurrogate_iff {u : Nat} : isLowSurrogate u = true ↔ 0xDC00 ≤ u ∧ u < 0xE000 := by
  simp [isLowSurrogate]

/-- A character is no surrogate. -/
theorem not_surrogate (c : Char) :
    isHighSurrogate c.toNat = false ∧ isLowSurrogate c.toNat = false := by
  have hvalid : c.toNat < 0xD800 ∨ 0xDFFF < c.toNat ∧ c.toNat < 0x110000 := c.valid
  rw [← Bool.not_eq_true, ← Bool.not_eq_true, isHighSurrogate_iff, isLowSurrogate_iff]
  omega

theorem ofSurrogates_eq {c : Char} (h : 0x10000 ≤ c.toNat) :
    ofSurrogates (0xD800 + (c.toNat - 0x10000) / 0x400) (0xDC00 + (c.toNat - 0x10000) % 0x400) =
      c := by
  have hsum : 0x10000 + (0xD800 + (c.toNat - 0x10000) / 0x400 - 0xD800) * 0x400 +
      (0xDC00 + (c.toNat - 0x10000) % 0x400 - 0xDC00) = c.toNat := by omega
  rw [ofSurrogates, hsum, Char.ofNat_toNat]

theorem surrogates {c : Char} (h : 0x10000 ≤ c.toNat) :
    isHighSurrogate (0xD800 + (c.toNat - 0x10000) / 0x400) = true ∧
      isLowSurrogate (0xDC00 + (c.toNat - 0x10000) % 0x400) = true := by
  have hvalid : c.toNat < 0xD800 ∨ 0xDFFF < c.toNat ∧ c.toNat < 0x110000 := c.valid
  rw [isHighSurrogate_iff, isLowSurrogate_iff]
  omega

/-! ## Spellings are read -/

theorem escaped_of_not_mem {c : Char} (h : c ∉ ['n', 't', 'r', 'b', 'f', 'u', '\n']) :
    c ≠ 'u' ∧ escaped c = some c := by
  simp only [List.mem_cons, List.not_mem_nil, or_false, not_or] at h
  obtain ⟨hn, ht, hr, hb, hf, hu, hbreak⟩ := h
  refine ⟨hu, ?_⟩
  unfold escaped
  split <;> first | rfl | contradiction

theorem escaped_of_mem_shortEscapes : ∀ p ∈ shortEscapes, p.1 ≠ 'u' ∧ escaped p.1 = some p.2 := by
  decide

theorem bytes_escape (e : Char) : Text.bytes ['\\', e] = 1 + e.utf8Size := by
  rw [Text.bytes_cons, Text.bytes_cons, Text.bytes_nil, utf8Size_backslash, Nat.add_zero]

theorem bytes_unit {u : Nat} {digits : List Char} (h : WritesUnit u digits) :
    Text.bytes digits = 4 := by
  obtain ⟨a, b, c, d, rfl, hunit⟩ := writesUnit_iff.1 h
  exact bytes_of_unit? hunit

section Reading

variable {quote : Char} (hquote : quote ≠ '\\') (start pos : Nat)
include hquote

/-- A spelling of a character is read as the character. -/
theorem SpellsChar.stringBody_eq {c : Char} {spelling : List Char} (h : SpellsChar quote c spelling)
    (rest : List Char) : stringBody quote start pos (spelling ++ rest) =
      (stringBody quote start (pos + Text.bytes spelling) rest).map (.cons c) := by
  cases h with
  | plain hne hslash hbreak => exact stringBody_plain start pos rest hne hbreak hslash
  | slashed h =>
    obtain ⟨hu, he⟩ := escaped_of_not_mem h
    rw [bytes_escape, ← Nat.add_assoc]
    exact stringBody_escaped start pos rest hquote hu he
  | letter h =>
    obtain ⟨hu, he⟩ := escaped_of_mem_shortEscapes _ h
    rw [bytes_escape, ← Nat.add_assoc]
    exact stringBody_escaped start pos rest hquote hu he
  | unit h =>
    have hbytes := bytes_unit h
    obtain ⟨a, b, d, e, rfl, hunit⟩ := writesUnit_iff.1 h
    obtain ⟨hhigh, hlow⟩ := not_surrogate c
    have hread := stringBody_unit start pos rest hquote hunit hhigh hlow
    rw [Char.ofNat_toNat] at hread
    rw [Text.bytes_cons, Text.bytes_cons, hbytes]
    exact hread
  | pair hc hhigh hlow =>
    have hbytes := bytes_unit hhigh
    have hbytes' := bytes_unit hlow
    obtain ⟨a, b, d, e, rfl, hunit⟩ := writesUnit_iff.1 hhigh
    obtain ⟨a', b', d', e', rfl, hunit'⟩ := writesUnit_iff.1 hlow
    obtain ⟨hfirst, hsecond⟩ := surrogates hc
    have hread := stringBody_pair start pos rest hquote hunit hunit' hfirst hsecond
    rw [ofSurrogates_eq hc] at hread
    rw [Text.bytes_append, Text.bytes_cons, Text.bytes_cons, hbytes, Text.bytes_cons,
      Text.bytes_cons, hbytes']
    exact hread

/-- An escaped line break stands for nothing. -/
theorem stringBody_lineBreak (rest : List Char) :
    stringBody quote start pos ('\\' :: '\n' :: rest) =
      stringBody quote start (pos + Text.bytes ['\\', '\n']) rest := by
  rw [stringBody.eq_def, bytes_escape, ← Nat.add_assoc]
  simp [Ne.symm hquote, escaped]

/-- A spelling of a string is passed over as the string. -/
theorem Spells.stringBody_eq {spelling s : List Char} (h : Spells quote spelling s)
    (rest : List Char) : stringBody quote start pos (spelling ++ rest) =
      (stringBody quote start (pos + Text.bytes spelling) rest).map
        fun b => { b with chars := s ++ b.chars } := by
  induction h generalizing pos with
  | nil => cases hb : stringBody quote start pos rest <;> simp [hb, Except.map]
  | char hchar _ ih =>
    rw [List.append_assoc, hchar.stringBody_eq hquote, ih, Text.bytes_append, ← Nat.add_assoc]
    cases stringBody quote start _ rest <;> rfl
  | @lineBreak spelling _ _ ih =>
    have hbytes : Text.bytes ('\\' :: '\n' :: spelling) =
        Text.bytes ['\\', '\n'] + Text.bytes spelling :=
      Text.bytes_append ['\\', '\n'] spelling
    rw [List.cons_append, List.cons_append, stringBody_lineBreak hquote, ih, hbytes,
      ← Nat.add_assoc]

/-- A surrogate without its other half is an error. -/
theorem stringBody_unpaired {u : Nat} {digits rest : List Char} (h : WritesUnit u digits)
    (hu : Unpaired u rest) :
    ∃ e, stringBody quote start pos ('\\' :: 'u' :: digits ++ rest) = .error e ∧
      (e.cause = .badUnicodeEscape ∨ e.cause = .unpairedSurrogate) := by
  obtain ⟨a, b, c, d, rfl, hunit⟩ := writesUnit_iff.1 h
  simp only [List.cons_append, List.nil_append]
  rw [stringBody.eq_def]
  simp only [if_neg (Ne.symm hquote), if_neg (by decide : '\\' ≠ '\n'), if_pos, hunit]
  rcases hu with hlow | ⟨hhigh, hnext⟩
  · have hfirst : isHighSurrogate u = false := by
      rw [← Bool.not_eq_true, isHighSurrogate_iff]
      omega
    rw [if_neg (by simp [hfirst]), if_pos (isLowSurrogate_iff.2 hlow)]
    exact ⟨_, rfl, .inl rfl⟩
  · rw [if_pos (isHighSurrogate_iff.2 hhigh)]
    split
    · next a' b' c' d' more =>
      split
      · exact ⟨_, rfl, .inl rfl⟩
      · next low hlow =>
        have hnot := hnext low [a', b', c', d'] more rfl
          (writesUnit_iff.2 ⟨a', b', c', d', rfl, hlow⟩)
        rw [if_neg fun hsecond => hnot (isLowSurrogate_iff.1 hsecond)]
        exact ⟨_, rfl, .inr rfl⟩
    · exact ⟨_, rfl, .inl rfl⟩
    · exact ⟨_, rfl, .inr rfl⟩

end Reading

/-! ## Only spellings are read -/

theorem toNat_ofNat {n : Nat} (h : n < 0xD800 ∨ 0xDFFF < n ∧ n < 0x110000) :
    (Char.ofNat n).toNat = n := by
  have hn : n.isValidChar := h
  rw [Char.ofNat, dif_pos hn]
  rfl

theorem SpellsChar.of_escaped {quote e c : Char} (hu : e ≠ 'u') (h : escaped e = some c) :
    SpellsChar quote c ['\\', e] := by
  unfold escaped at h
  split at h
  case h_6 => cases h
  case h_7 hn ht hr hb hf hbreak =>
    cases h
    refine .slashed ?_
    simp only [List.mem_cons, List.not_mem_nil, or_false, not_or]
    exact ⟨hn, ht, hr, hb, hf, hu, hbreak⟩
  all_goals
    cases h
    exact .letter (by decide)

theorem SpellsChar.of_unit {quote a b c d : Char} {u : Nat} (h : unit? a b c d = some u)
    (hhigh : ¬isHighSurrogate u = true) (hlow : ¬isLowSurrogate u = true) :
    SpellsChar quote (Char.ofNat u) ['\\', 'u', a, b, c, d] := by
  have hwrites := unit?_eq_some_iff.1 h
  rw [isHighSurrogate_iff] at hhigh
  rw [isLowSurrogate_iff] at hlow
  have hlt := hwrites.1
  refine .unit ?_
  rw [toNat_ofNat (by omega)]
  exact hwrites

theorem SpellsChar.of_pair {quote a b c d a' b' c' d' : Char} {u v : Nat}
    (hu : unit? a b c d = some u) (hv : unit? a' b' c' d' = some v)
    (hhigh : isHighSurrogate u = true) (hlow : isLowSurrogate v = true) :
    SpellsChar quote (ofSurrogates u v)
      ['\\', 'u', a, b, c, d, '\\', 'u', a', b', c', d'] := by
  rw [isHighSurrogate_iff] at hhigh
  rw [isLowSurrogate_iff] at hlow
  have hnat : (ofSurrogates u v).toNat = 0x10000 + (u - 0xD800) * 0x400 + (v - 0xDC00) :=
    toNat_ofNat (by omega)
  change SpellsChar quote _ ('\\' :: 'u' :: [a, b, c, d] ++ '\\' :: 'u' :: [a', b', c', d'])
  refine .pair (by omega) ?_ ?_
  · rw [hnat, show 0xD800 + (0x10000 + (u - 0xD800) * 0x400 + (v - 0xDC00) - 0x10000) / 0x400 = u by
      omega]
    exact unit?_eq_some_iff.1 hu
  · rw [hnat, show 0xDC00 + (0x10000 + (u - 0xD800) * 0x400 + (v - 0xDC00) - 0x10000) % 0x400 = v by
      omega]
    exact unit?_eq_some_iff.1 hv

theorem eq_of_escaped_eq_none {e : Char} (h : escaped e = none) : e = '\n' := by
  unfold escaped at h
  split at h <;> first | rfl | cases h

/-- What is read up to the closing quote is a spelling. -/
theorem exists_spelling {quote : Char} {start pos : Nat} {cs : List Char} {b : StringBody}
    (h : stringBody quote start pos cs = .ok b) :
    ∃ spelling, Spells quote spelling b.chars ∧ cs = spelling ++ quote :: b.behind.rest := by
  fun_induction stringBody quote start pos cs generalizing b with
  | case2 =>
    cases h
    exact ⟨[], .nil, rfl⟩
  | case7 pos h₁ h₂ h₃ h₄ u hu hhigh l₁ l₂ l₃ l₄ cs v hv hlow _ _ ih =>
    obtain ⟨b', hb', rfl⟩ := map_eq_ok.1 h
    obtain ⟨spelling, hspelling, rfl⟩ := ih hb'
    exact ⟨_, .char (.of_pair hu hv hhigh hlow) hspelling, rfl⟩
  | case12 pos h₁ h₂ h₃ h₄ cs u hu hhigh hlow _ _ ih =>
    obtain ⟨b', hb', rfl⟩ := map_eq_ok.1 h
    obtain ⟨spelling, hspelling, rfl⟩ := ih hb'
    exact ⟨_, .char (.of_unit hu hhigh hlow) hspelling, rfl⟩
  | case14 pos e cs _ _ he _ _ ih =>
    obtain ⟨spelling, hspelling, rfl⟩ := ih h
    cases eq_of_escaped_eq_none he
    exact ⟨_, .lineBreak hspelling, rfl⟩
  | case15 pos e cs _ hu c he _ _ ih =>
    obtain ⟨b', hb', rfl⟩ := map_eq_ok.1 h
    obtain ⟨spelling, hspelling, rfl⟩ := ih hb'
    exact ⟨_, .char (.of_escaped hu he) hspelling, rfl⟩
  | case16 pos c cs hquote hbreak hslash ih =>
    obtain ⟨b', hb', rfl⟩ := map_eq_ok.1 h
    obtain ⟨spelling, hspelling, rfl⟩ := ih hb'
    exact ⟨_, .char (.plain hquote hslash hbreak) hspelling, rfl⟩
  | _ => cases h

/-! ## The literal -/

section Literals

variable {quote : Char} (hquote : quote = '"' ∨ quote = '\'')
include hquote

theorem quote_ne_slash : quote ≠ '\\' := by
  rcases hquote with rfl | rfl <;> decide

theorem utf8Size_quote : quote.utf8Size = 1 := by
  rcases hquote with rfl | rfl <;> rfl

/-- Behind a quote stands the rest of a literal. -/
theorem next?_quote (pos : Nat) (cs : List Char) :
    next? ⟨pos, quote :: cs⟩ = (stringBody quote pos (pos + 1) cs).map fun b =>
      (pos, some (⟨.string (String.ofList b.chars), pos, b.behind.pos⟩, b.behind)) := by
  have hsize := utf8Size_quote hquote
  have hmark : punctuation? quote = none := by rcases hquote with rfl | rfl <;> rfl
  have hblank : Text.isBlank quote = false ∧ quote ≠ '/' := by
    rcases hquote with rfl | rfl <;> decide
  rw [next?_of_not_blank pos cs hblank.1 hblank.2, tokenAt, hmark]
  simp only [if_pos hquote, hsize]
  cases stringBody quote pos (pos + 1) cs <;> rfl

/-- Every spelling of a string between quotes is read as the string, as one token that takes the
literal up, wherever the literal stands and whatever follows it. A literal in which a surrogate is
unpaired is an error; the first such surrogate stands behind a spelling. And what is read behind a
quote is always a string of which a spelling stands there. -/
theorem literals_are_read_as_spelled (before : List Char) :
    (∀ spelling s after, Spells quote spelling s →
      let literal := quote :: spelling ++ [quote]
      let stop := Text.bytes before + Text.bytes literal
      next? (.at (before ++ literal ++ after) (Text.bytes before)) =
        .ok (Text.bytes before,
          some (⟨.string (String.ofList s), Text.bytes before, stop⟩, ⟨stop, after⟩))) ∧
    (∀ spelling s u digits after, Spells quote spelling s → WritesUnit u digits → Unpaired u after →
      ∃ e, next? (.at (before ++ quote :: spelling ++ '\\' :: 'u' :: digits ++ after)
          (Text.bytes before)) = .error e ∧
        (e.cause = .badUnicodeEscape ∨ e.cause = .unpairedSurrogate)) ∧
    ∀ text start token behind,
      next? (.at (before ++ quote :: text) (Text.bytes before)) =
        .ok (start, some (token, behind)) →
      ∃ spelling s, Spells quote spelling s ∧ text = spelling ++ quote :: behind.rest ∧
        token.lexeme = .string (String.ofList s) := by
  have hslash := quote_ne_slash hquote
  refine ⟨?_, ?_, ?_⟩
  · intro spelling s after h literal stop
    have hclose : ∀ pos, stringBody quote (Text.bytes before) pos (quote :: after) =
        .ok ⟨[], ⟨pos + 1, after⟩⟩ := by
      intro pos
      rw [stringBody.eq_def]
      simp [utf8Size_quote hquote]
    have hstop : Text.bytes before + 1 + Text.bytes spelling + 1 = stop := by
      simp only [stop, literal, Text.bytes_append, Text.bytes_cons, Text.bytes_nil,
        utf8Size_quote hquote]
      omega
    have hplace : Cursor.at (before ++ literal ++ after) (Text.bytes before) =
        ⟨Text.bytes before, quote :: (spelling ++ quote :: after)⟩ := by
      rw [Cursor.at, List.append_assoc, Text.dropBytes_append]
      simp [literal]
    rw [hplace, next?_quote hquote, h.stringBody_eq hslash, hclose, hstop]
    simp [Except.map]
  · intro spelling s u digits after h hdigits hu
    have hplace : Cursor.at (before ++ quote :: spelling ++ '\\' :: 'u' :: digits ++ after)
        (Text.bytes before) =
        ⟨Text.bytes before, quote :: (spelling ++ ('\\' :: 'u' :: digits ++ after))⟩ := by
      rw [Cursor.at, List.append_assoc, List.append_assoc, Text.dropBytes_append]
      simp
    obtain ⟨e, he, hcause⟩ := stringBody_unpaired hslash (Text.bytes before)
      (Text.bytes before + 1 + Text.bytes spelling) hdigits hu
    refine ⟨e, ?_, hcause⟩
    rw [hplace, next?_quote hquote, h.stringBody_eq hslash, he]
    rfl
  · intro text start token behind h
    rw [Cursor.at, Text.dropBytes_append, next?_quote hquote] at h
    obtain ⟨b, hb, he⟩ := map_eq_ok.1 h
    cases he
    obtain ⟨spelling, hspelling, htext⟩ := exists_spelling hb
    exact ⟨spelling, b.chars, hspelling, htext, rfl⟩

end Literals

/-- What `sampleSpelling` spells. -/
def sampleChars : List Char := ['\u00e9', Char.ofNat 0x1F600, '\'', '\n']

/-- Two characters by their numbers, an escaped line break, an escaped quote, and a line break by
its letter. -/
def sampleSpelling : List Char :=
  ['\\', 'u', '0', '0', 'E', '9'] ++
    (['\\', 'u', 'D', '8', '3', 'd', '\\', 'u', 'd', 'e', '0', '0'] ++
      '\\' :: '\n' :: (['\\', '\''] ++ (['\\', 'n'] ++ [])))

theorem spells_sampleSpelling : Spells '\'' sampleSpelling sampleChars := by
  refine .char (.unit (unit?_eq_some_iff.1 rfl)) (.char ?_ (.lineBreak ?_))
  · exact .of_pair (u := 0xD83D) (v := 0xDE00) (by decide) (by decide) rfl rfl
  · exact .char (.slashed (by decide)) (.char (.letter (by decide)) .nil)

theorem literals_are_read_as_spelled_sample :
    ('\'' = '"' ∨ '\'' = '\'') ∧ Spells '\'' sampleSpelling sampleChars ∧
    next? (.at (['a', ' '] ++ ('\'' :: sampleSpelling ++ ['\'']) ++ [',']) 2) =
      .ok (2, some (⟨.string (String.ofList sampleChars), 2, 28⟩, ⟨28, [',']⟩)) ∧
    ∃ e, next? (.at (['a', ' '] ++ '\'' :: sampleSpelling ++
        '\\' :: 'u' :: ['D', '8', '3', 'd'] ++ ['\'']) 2) = .error e ∧
      (e.cause = .badUnicodeEscape ∨ e.cause = .unpairedSurrogate) := by
  have hquote : '\'' = '"' ∨ '\'' = '\'' := .inr rfl
  obtain ⟨hread, hunpaired, -⟩ := literals_are_read_as_spelled hquote ['a', ' ']
  have hunit : WritesUnit 0xD83D ['D', '8', '3', 'd'] := unit?_eq_some_iff.1 (by decide)
  refine ⟨hquote, spells_sampleSpelling, hread _ _ [','] spells_sampleSpelling, ?_⟩
  exact hunpaired _ _ _ _ ['\''] spells_sampleSpelling hunit (.inr ⟨by decide, nofun⟩)

end ColumnMetadata.Literal
