import ColumnMetadata.Literal.Scan
import ColumnMetadata.Proofs.Basic

/-!
# What a scan sees

Scanning only moves forward: each step of it passes a part of the text and counts its bytes
(`Cursor.Reaches`), and a token passes at least one character (`next?_shorter`). So a scan never
runs out of steps, and it is the next token in front of the scan of what stands behind it
(`scan_eq`). An error that stops it is about the characters at a place that it has come to
(`scan_error`). A part of a text that gives tokens of its own, whatever stands behind it, is *scanned
as* these tokens (`ScannedAs`).
-/

namespace ColumnMetadata

/-- A byte offset at which a character of the text begins or the text ends. -/
def Text.IsBoundary (text : List Char) (offset : Nat) : Prop :=
  ∃ front behind, text = front ++ behind ∧ offset = bytes front

theorem Text.IsBoundary.le_bytes {text : List Char} {offset : Nat} (h : IsBoundary text offset) :
    offset ≤ bytes text := by
  obtain ⟨front, behind, rfl, rfl⟩ := h
  rw [bytes_append]
  exact Nat.le_add_right _ _

namespace Literal

/-! ## Moving forward -/

/-- The second place stands behind the first, at the offset that the passed characters give. -/
def Cursor.Reaches (p q : Cursor) : Prop :=
  ∃ passed, p.rest = passed ++ q.rest ∧ q.pos = p.pos + Text.bytes passed

namespace Cursor.Reaches

theorem refl (p : Cursor) : p.Reaches p := ⟨[], rfl, rfl⟩

theorem trans {p q r : Cursor} (h : p.Reaches q) (h' : q.Reaches r) : p.Reaches r := by
  obtain ⟨a, ha, hpos⟩ := h
  obtain ⟨b, hb, hpos'⟩ := h'
  refine ⟨a ++ b, ?_, ?_⟩
  · rw [ha, hb, List.append_assoc]
  · rw [hpos', hpos, Text.bytes_append, Nat.add_assoc]

/-- Passing one character. -/
theorem char (pos : Nat) (c : Char) (cs : List Char) :
    Cursor.Reaches ⟨pos, c :: cs⟩ ⟨pos + c.utf8Size, cs⟩ :=
  ⟨[c], rfl, by simp⟩

/-- Passing characters known beforehand. -/
theorem pass (passed : List Char) {pos stop : Nat} {cs : List Char}
    (h : stop = pos + Text.bytes passed) : Cursor.Reaches ⟨pos, passed ++ cs⟩ ⟨stop, cs⟩ :=
  ⟨passed, rfl, h⟩

theorem pos_le {p q : Cursor} (h : p.Reaches q) : p.pos ≤ q.pos := by
  obtain ⟨passed, -, hpos⟩ := h
  omega

theorem length_le {p q : Cursor} (h : p.Reaches q) : q.rest.length ≤ p.rest.length := by
  obtain ⟨passed, hrest, -⟩ := h
  rw [hrest, List.length_append]
  omega

theorem isBoundary {front rest : List Char} {q : Cursor}
    (h : Cursor.Reaches ⟨Text.bytes front, rest⟩ q) :
    Text.IsBoundary (front ++ rest) q.pos := by
  obtain ⟨passed, hrest, hpos⟩ := h
  dsimp only at hrest hpos
  refine ⟨front ++ passed, q.rest, ?_, ?_⟩
  · rw [hrest, List.append_assoc]
  · rw [hpos, Text.bytes_append]

end Cursor.Reaches

mutual

theorem skip_reaches : ∀ {pos : Nat} {cs : List Char} {p : Cursor}, skip pos cs = .ok p →
    Cursor.Reaches ⟨pos, cs⟩ p
  | pos, [], p, h => by
    unfold skip at h
    cases h
    exact .refl _
  | pos, c :: cs, p, h => by
    unfold skip at h
    split at h
    · next hcs => cases hcs
    · next cs' hcs =>
      cases hcs
      exact (Cursor.Reaches.pass ['/', '/'] rfl).trans (skipLine_reaches h)
    · next cs' hcs =>
      cases hcs
      exact (Cursor.Reaches.pass ['/', '*'] rfl).trans (skipBlock_reaches h)
    · next hcs =>
      cases hcs
      split at h
      · exact (Cursor.Reaches.char pos c cs).trans (skip_reaches h)
      · cases h
        exact .refl _

theorem skipLine_reaches : ∀ {pos : Nat} {cs : List Char} {p : Cursor}, skipLine pos cs = .ok p →
    Cursor.Reaches ⟨pos, cs⟩ p
  | pos, [], p, h => by
    unfold skipLine at h
    cases h
    exact .refl _
  | pos, c :: cs, p, h => by
    unfold skipLine at h
    split at h
    · next hc =>
      subst hc
      exact (Cursor.Reaches.char pos '\n' cs).trans (skip_reaches h)
    · exact (Cursor.Reaches.char pos c cs).trans (skipLine_reaches h)

theorem skipBlock_reaches : ∀ {start pos : Nat} {cs : List Char} {p : Cursor},
    skipBlock start pos cs = .ok p → Cursor.Reaches ⟨pos, cs⟩ p
  | start, pos, [], p, h => by
    unfold skipBlock at h
    cases h
  | start, pos, c :: cs, p, h => by
    unfold skipBlock at h
    split at h
    · next hcs => cases hcs
    · next cs' hcs =>
      cases hcs
      exact (Cursor.Reaches.pass ['*', '/'] rfl).trans (skip_reaches h)
    · next hcs =>
      cases hcs
      exact (Cursor.Reaches.char pos c cs).trans (skipBlock_reaches h)

end

theorem utf8Size_of_hexValue? {c : Char} {n : Nat} (h : hexValue? c = some n) : c.utf8Size = 1 := by
  have hlt : c.val ≤ 0x7f := by
    unfold hexValue? at h
    simp only [Char.le_def, UInt32.le_iff_toNat_le] at h ⊢
    split at h
    · next hc => exact Nat.le_trans hc.2 (by decide)
    · split at h
      · next hc => exact Nat.le_trans hc.2 (by decide)
      · split at h
        · next hc => exact Nat.le_trans hc.2 (by decide)
        · cases h
  simp [Char.utf8Size, hlt]

/-- The four digits of a unit are four bytes. -/
theorem bytes_of_unit? {a b c d : Char} {n : Nat} (h : unit? a b c d = some n) :
    Text.bytes [a, b, c, d] = 4 := by
  simp only [unit?, Option.bind_eq_bind, Option.bind_eq_some_iff] at h
  obtain ⟨_, ha, _, hb, _, hc, _, hd, -⟩ := h
  simp [utf8Size_of_hexValue? ha, utf8Size_of_hexValue? hb, utf8Size_of_hexValue? hc,
    utf8Size_of_hexValue? hd]

theorem utf8Size_backslash : '\\'.utf8Size = 1 := rfl

theorem utf8Size_u : 'u'.utf8Size = 1 := rfl

/-- Passing a backslash and the character behind it. -/
theorem reaches_escape (pos : Nat) (e : Char) (cs : List Char) :
    Cursor.Reaches ⟨pos, '\\' :: e :: cs⟩ ⟨pos + 1 + e.utf8Size, cs⟩ :=
  (Cursor.Reaches.char pos '\\' _).trans (.char _ e cs)

/-- Passing a unit with its mark. -/
theorem reaches_unit {a b c d : Char} {u : Nat} (h : unit? a b c d = some u) (pos : Nat)
    (cs : List Char) :
    Cursor.Reaches ⟨pos, '\\' :: 'u' :: a :: b :: c :: d :: cs⟩ ⟨pos + 6, cs⟩ := by
  refine (reaches_escape pos 'u' _).trans (.pass [a, b, c, d] ?_)
  rw [bytes_of_unit? h, utf8Size_u]

theorem stringBody_reaches {quote : Char} {start pos : Nat} {cs : List Char} {b : StringBody}
    (h : stringBody quote start pos cs = .ok b) : Cursor.Reaches ⟨pos, cs⟩ b.behind := by
  fun_induction stringBody quote start pos cs generalizing b with
  | case2 pos cs =>
    cases h
    exact .char pos quote cs
  | case7 pos h₁ h₂ h₃ h₄ high hu _ l₁ l₂ l₃ l₄ cs low hl _ _ _ ih =>
    obtain ⟨b', hb', rfl⟩ := map_eq_ok.1 h
    have hrest := ih hb'
    exact ((reaches_unit hu pos _).trans (reaches_unit hl (pos + 6) cs)).trans hrest
  | case12 pos h₁ h₂ h₃ h₄ cs u hu _ _ _ _ ih =>
    obtain ⟨b', hb', rfl⟩ := map_eq_ok.1 h
    have hrest := ih hb'
    exact (reaches_unit hu pos cs).trans hrest
  | case14 pos e cs _ _ _ _ _ ih => exact (reaches_escape pos e cs).trans (ih h)
  | case15 pos e cs _ _ c _ _ _ ih =>
    obtain ⟨b', hb', rfl⟩ := map_eq_ok.1 h
    have hrest := ih hb'
    exact (reaches_escape pos e cs).trans hrest
  | case16 pos c cs _ _ _ ih =>
    obtain ⟨b', hb', rfl⟩ := map_eq_ok.1 h
    have hrest := ih hb'
    exact .trans (.char pos c cs) hrest
  | _ => cases h

/-! ## Tokens -/

/-- A token begins where it was looked for and ends where the scan goes on, behind at least its
first character. -/
theorem tokenAt_reaches {pos : Nat} {c : Char} {cs : List Char} {t : Token} {q : Cursor}
    (h : tokenAt pos c cs = .ok (t, q)) :
    Cursor.Reaches ⟨pos + c.utf8Size, cs⟩ q ∧ t.start = pos ∧ t.stop = q.pos := by
  unfold tokenAt at h
  split at h
  · cases h
    exact ⟨.refl _, rfl, rfl⟩
  · split at h
    · obtain ⟨b, hb, hbt⟩ := map_eq_ok.1 h
      cases hbt
      exact ⟨stringBody_reaches hb, rfl, rfl⟩
    · split at h
      · dsimp only at h
        split at h
        · cases h
          refine ⟨⟨cs.takeWhile isBare, List.takeWhile_append_dropWhile.symm, ?_⟩, rfl, rfl⟩
          rw [Text.bytes_cons, Nat.add_assoc]
        · cases h
      · cases h
        exact ⟨.refl _, rfl, rfl⟩

/-- The next token stands behind what is passed over. It has at least one character, and the scan
goes on behind it. -/
theorem next?_eq_token {p q : Cursor} {stop : Nat} {t : Token}
    (h : next? p = .ok (stop, some (t, q))) :
    ∃ c cs, p.Reaches ⟨t.start, c :: cs⟩ ∧ Cursor.Reaches ⟨t.start + c.utf8Size, cs⟩ q ∧
      t.stop = q.pos := by
  obtain ⟨⟨pos, rest⟩, hs, h⟩ := bind_eq_ok.1 h
  dsimp only at h
  split at h
  · cases h
  · next c cs =>
    obtain ⟨⟨t', q'⟩, ht, he⟩ := map_eq_ok.1 h
    cases he
    obtain ⟨hreaches, rfl, hstop⟩ := tokenAt_reaches ht
    exact ⟨c, cs, skip_reaches hs, hreaches, hstop⟩

theorem next?_reaches {p q : Cursor} {stop : Nat} {t : Token}
    (h : next? p = .ok (stop, some (t, q))) : p.Reaches q := by
  obtain ⟨c, cs, hskip, htoken, -⟩ := next?_eq_token h
  exact (hskip.trans (.char _ c cs)).trans htoken

/-- A token takes at least one character. -/
theorem next?_shorter {p q : Cursor} {stop : Nat} {t : Token}
    (h : next? p = .ok (stop, some (t, q))) : q.rest.length < p.rest.length := by
  obtain ⟨c, cs, hskip, htoken, -⟩ := next?_eq_token h
  have hskip : cs.length + 1 ≤ p.rest.length := hskip.length_le
  have htoken : q.rest.length ≤ cs.length := htoken.length_le
  omega

/-! ## The whole scan -/

/-- Any two numbers of steps that are enough give the same scan. -/
theorem scanFrom_eq {n m : Nat} {p : Cursor} (hn : p.rest.length < n) (hm : p.rest.length < m) :
    scanFrom n p = scanFrom m p := by
  induction n generalizing m p with
  | zero => exact absurd hn (Nat.not_lt_zero _)
  | succ n ih =>
    cases m with
    | zero => exact absurd hm (Nat.not_lt_zero _)
    | succ m =>
      rw [scanFrom, scanFrom]
      split
      · rfl
      · rfl
      · next h =>
        have hq := next?_shorter h
        exact congrArg (Scan.cons _) (ih (by omega) (by omega))

/-- A scan is the next token in front of the scan of what stands behind it. -/
theorem scan_eq (p : Cursor) :
    scan p = match next? p with
      | .error e => ⟨[], .error e⟩
      | .ok (stop, none) => ⟨[], .ok stop⟩
      | .ok (_, some (t, q)) => (scan q).cons t := by
  rw [scan, scanFrom]
  rcases h : next? p with e | ⟨stop, _ | ⟨t, q⟩⟩
  · rfl
  · rfl
  · exact congrArg (Scan.cons _) (scanFrom_eq (next?_shorter h) (Nat.lt_succ_self _))

/-- A scan without an error comes to the end of the text. -/
theorem scan_ending {p : Cursor} {stop : Nat} (h : (scan p).ending = .ok stop) :
    stop = p.pos + Text.bytes p.rest := by
  rw [scan_eq] at h
  split at h
  · cases h
  · next hnext =>
    cases h
    obtain ⟨s, hs, hnone⟩ := bind_eq_ok.1 hnext
    obtain ⟨passed, hrest, hpos⟩ := skip_reaches hs
    split at hnone
    · next hnil =>
      cases hnone
      rw [hnil, List.append_nil] at hrest
      rw [hpos, hrest]
    · obtain ⟨_, _, he⟩ := map_eq_ok.1 hnone
      cases he
  · next t q hnext =>
    have hshorter := next?_shorter hnext
    obtain ⟨passed, hrest, hpos⟩ := next?_reaches hnext
    rw [scan_ending (p := q) h, hpos, hrest, Text.bytes_append, Nat.add_assoc]
termination_by p.rest.length

/-! ## What stops a scan -/

/-- Something is wrong with the characters, apart from the order of the tokens. -/
def SyntaxError.Cause.IsLexical : SyntaxError.Cause → Prop
  | .unterminatedComment | .unterminatedString | .badUnicodeEscape | .unpairedSurrogate
  | .malformedWord _ => True
  | _ => False

/-- The error says that characters are wrong, and names a place behind the given one. -/
structure SyntaxError.Behind (e : SyntaxError) (p : Cursor) : Prop where
  lexical : e.cause.IsLexical
  offset : ∃ q, p.Reaches q ∧ q.pos = e.offset

theorem SyntaxError.Behind.here {e : SyntaxError} {p : Cursor} (h : e.cause.IsLexical)
    (hp : e.offset = p.pos) : e.Behind p :=
  ⟨h, p, .refl p, hp.symm⟩

theorem SyntaxError.Behind.of_reaches {e : SyntaxError} {p q : Cursor} (h : e.Behind q)
    (hq : p.Reaches q) : e.Behind p := by
  obtain ⟨hlexical, r, hr, hoffset⟩ := h
  exact ⟨hlexical, r, hq.trans hr, hoffset⟩

mutual

theorem skip_error : ∀ {pos : Nat} {cs : List Char} {e : SyntaxError}, skip pos cs = .error e →
    e.Behind ⟨pos, cs⟩
  | pos, [], e, h => by
    unfold skip at h
    cases h
  | pos, c :: cs, e, h => by
    unfold skip at h
    split at h
    · next hcs => cases hcs
    · next cs' hcs =>
      cases hcs
      exact (skipLine_error h).of_reaches (.pass ['/', '/'] rfl)
    · next cs' hcs =>
      cases hcs
      exact skipBlock_error ⟨pos, '/' :: '*' :: cs'⟩ (.pass ['/', '*'] rfl) h
    · next hcs =>
      cases hcs
      split at h
      · exact (skip_error h).of_reaches (.char pos c cs)
      · cases h

theorem skipLine_error : ∀ {pos : Nat} {cs : List Char} {e : SyntaxError},
    skipLine pos cs = .error e → e.Behind ⟨pos, cs⟩
  | pos, [], e, h => by
    unfold skipLine at h
    cases h
  | pos, c :: cs, e, h => by
    unfold skipLine at h
    split at h
    · next hc =>
      subst hc
      exact (skip_error h).of_reaches (.char pos '\n' cs)
    · exact (skipLine_error h).of_reaches (.char pos c cs)

/-- A block comment that is not closed is reported where it begins. -/
theorem skipBlock_error : ∀ {pos : Nat} {cs : List Char} {e : SyntaxError} (p : Cursor),
    p.Reaches ⟨pos, cs⟩ → skipBlock p.pos pos cs = .error e → e.Behind p
  | pos, [], e, p, _, h => by
    unfold skipBlock at h
    cases h
    exact .here trivial rfl
  | pos, c :: cs, e, p, hp, h => by
    unfold skipBlock at h
    split at h
    · next hcs => cases hcs
    · next cs' hcs =>
      cases hcs
      exact (skip_error h).of_reaches (hp.trans (.pass ['*', '/'] rfl))
    · next hcs =>
      cases hcs
      exact skipBlock_error p (hp.trans (.char pos c cs)) h

end

/-- A string that does not end is reported where it begins, and an escape behind its mark. -/
theorem stringBody_error {quote : Char} {pos : Nat} {cs : List Char} {e : SyntaxError} {p : Cursor}
    (hp : p.Reaches ⟨pos, cs⟩) (h : stringBody quote p.pos pos cs = .error e) : e.Behind p := by
  have hmark {pos : Nat} {cs : List Char} {cause : SyntaxError.Cause} (hcause : cause.IsLexical)
      (hp : p.Reaches ⟨pos, '\\' :: 'u' :: cs⟩) : SyntaxError.Behind ⟨pos + 2, cause⟩ p :=
    ⟨hcause, ⟨pos + 2, cs⟩, hp.trans (reaches_escape pos 'u' cs), rfl⟩
  fun_induction stringBody quote p.pos pos cs with
  | case1 | case3 | case4 =>
    cases h
    exact .here trivial rfl
  | case2 => cases h
  | case5 | case8 | case10 | case11 | case13 =>
    cases h
    exact hmark trivial hp
  | case6 pos _ _ _ _ _ hu | case9 pos _ _ _ _ _ hu =>
    cases h
    exact hmark trivial (hp.trans (reaches_unit hu pos _))
  | case7 pos _ _ _ _ _ hu _ _ _ _ _ cs _ hl _ _ _ ih =>
    have hreaches := (reaches_unit hu pos _).trans (reaches_unit hl (pos + 6) cs)
    exact ih (hp.trans hreaches) (map_eq_error.1 h)
  | case12 pos _ _ _ _ cs _ hu _ _ _ _ ih =>
    exact ih (hp.trans (reaches_unit hu pos cs)) (map_eq_error.1 h)
  | case14 pos e cs _ _ _ _ _ ih => exact ih (hp.trans (reaches_escape pos e cs)) h
  | case15 pos e cs _ _ _ _ _ _ ih =>
    exact ih (hp.trans (reaches_escape pos e cs)) (map_eq_error.1 h)
  | case16 pos c cs _ _ _ ih => exact ih (hp.trans (.char pos c cs)) (map_eq_error.1 h)

theorem tokenAt_error {pos : Nat} {c : Char} {cs : List Char} {e : SyntaxError}
    (h : tokenAt pos c cs = .error e) : e.Behind ⟨pos, c :: cs⟩ := by
  unfold tokenAt at h
  split at h
  · cases h
  · split at h
    · exact stringBody_error (.char pos c cs) (map_eq_error.1 h)
    · split at h
      · dsimp only at h
        split at h
        · cases h
        · cases h
          exact .here trivial rfl
      · cases h

theorem next?_error {p : Cursor} {e : SyntaxError} (h : next? p = .error e) : e.Behind p := by
  rcases bind_eq_error.1 h with hskip | ⟨⟨pos, rest⟩, hs, h⟩
  · exact skip_error hskip
  · dsimp only at h
    split at h
    · cases h
    · exact (tokenAt_error (map_eq_error.1 h)).of_reaches (skip_reaches hs)

theorem scan_error {p : Cursor} {e : SyntaxError} (h : (scan p).ending = .error e) :
    e.Behind p := by
  rw [scan_eq] at h
  split at h
  · next hnext =>
    cases h
    exact next?_error hnext
  · cases h
  · next t q hnext =>
    have hshorter := next?_shorter hnext
    exact (scan_error (p := q) h).of_reaches (next?_reaches hnext)
termination_by p.rest.length

/-! ## Where tokens stand -/

/-- The tokens stand behind the place one after the other, each on at least one character. -/
inductive Cursor.Carries : Cursor → List Token → Prop
  | nil (p : Cursor) : Carries p []
  | cons {p s q : Cursor} {t : Token} {ts : List Token} (hstart : p.Reaches s)
      (hstop : s.Reaches q) (hlt : s.pos < q.pos) (hs : t.start = s.pos) (hq : t.stop = q.pos)
      (h : q.Carries ts) : Carries p (t :: ts)

theorem scan_carries (p : Cursor) : p.Carries (scan p).tokens := by
  rw [scan_eq]
  split
  · exact .nil p
  · exact .nil p
  · next t q hnext =>
    have hshorter := next?_shorter hnext
    obtain ⟨c, cs, hskip, htoken, hstop⟩ := next?_eq_token hnext
    have hlt : t.start < q.pos := by
      have hsize := c.utf8Size_pos
      have hle : t.start + c.utf8Size ≤ q.pos := htoken.pos_le
      omega
    exact .cons hskip ((Cursor.Reaches.char _ c cs).trans htoken) hlt rfl hstop (scan_carries q)
termination_by p.rest.length

namespace Cursor.Carries

variable {p : Cursor} {t : Token} {ts : List Token}

/-- Behind some of the tokens. -/
theorem drop {us : List Token} (h : p.Carries (us ++ ts)) : ∃ q, p.Reaches q ∧ q.Carries ts := by
  induction us generalizing p with
  | nil => exact ⟨p, .refl p, h⟩
  | cons u us ih =>
    cases h with
    | cons hstart hstop _ _ _ h =>
      obtain ⟨q, hq, hts⟩ := ih h
      exact ⟨q, (hstart.trans hstop).trans hq, hts⟩

theorem exists_start (h : p.Carries (t :: ts)) : ∃ s, p.Reaches s ∧ s.pos = t.start := by
  cases h with
  | cons hstart _ _ hs _ _ => exact ⟨_, hstart, hs.symm⟩

theorem exists_stop (h : p.Carries ts) (ht : t ∈ ts) :
    ∃ q, p.Reaches q ∧ q.pos = t.stop := by
  obtain ⟨us, vs, rfl⟩ := List.append_of_mem ht
  obtain ⟨q, hq, h⟩ := h.drop
  cases h with
  | cons hstart hstop _ _ hstopped _ => exact ⟨_, (hq.trans hstart).trans hstop, hstopped.symm⟩

/-- A token begins in front of the end of each token that is not in front of it. -/
theorem start_lt_stop (h : p.Carries (t :: ts)) {t' : Token} (ht' : t' ∈ t :: ts) :
    t.start < t'.stop := by
  cases h with
  | cons _ _ hlt hs hq h =>
    rcases List.mem_cons.1 ht' with rfl | ht'
    · rw [hs, hq]
      exact hlt
    · obtain ⟨q, hreaches, hstop⟩ := h.exists_stop ht'
      have hle := hreaches.pos_le
      omega

end Cursor.Carries

/-! ## Parts of a text that give tokens of their own -/

/-- Tokens in front of a scan. -/
def Scan.prepend (ts : List Token) (s : Scan) : Scan := { s with tokens := ts ++ s.tokens }

@[simp] theorem Scan.prepend_nil (s : Scan) : s.prepend [] = s := rfl

@[simp] theorem Scan.prepend_tokens (ts : List Token) (s : Scan) :
    (s.prepend ts).tokens = ts ++ s.tokens := rfl

@[simp] theorem Scan.prepend_ending (ts : List Token) (s : Scan) :
    (s.prepend ts).ending = s.ending := rfl

theorem Scan.prepend_append (ts us : List Token) (s : Scan) :
    s.prepend (ts ++ us) = (s.prepend us).prepend ts := by
  simp [Scan.prepend]

/-- Characters in front of a rest are scanned from an offset on as tokens of the given kinds. -/
def ScannedAs (pos : Nat) (cs rest : List Char) (ls : List Lexeme) : Prop :=
  ∃ ts : List Token, ts.map Token.lexeme = ls ∧
    scan ⟨pos, cs ++ rest⟩ = (scan ⟨pos + Text.bytes cs, rest⟩).prepend ts

namespace ScannedAs

theorem nil (pos : Nat) (rest : List Char) : ScannedAs pos [] rest [] :=
  ⟨[], rfl, by simp⟩

/-- One part behind another gives its tokens behind those of the other. -/
theorem append {pos : Nat} {a b rest : List Char} {l m : List Lexeme}
    (ha : ScannedAs pos a (b ++ rest) l) (hb : ScannedAs (pos + Text.bytes a) b rest m) :
    ScannedAs pos (a ++ b) rest (l ++ m) := by
  obtain ⟨ts, hts, hscan⟩ := ha
  obtain ⟨us, hus, hscan'⟩ := hb
  refine ⟨ts ++ us, by rw [List.map_append, hts, hus], ?_⟩
  rw [List.append_assoc, hscan, hscan', Scan.prepend_append, Text.bytes_append, Nat.add_assoc]

/-- Characters that are one token, whatever comes next, are scanned as it. -/
theorem token {pos p : Nat} {cs rest : List Char} {l : Lexeme} {t : Token}
    (h : next? ⟨pos, cs ++ rest⟩ = .ok (p, some (t, ⟨pos + Text.bytes cs, rest⟩)))
    (hl : t.lexeme = l) : ScannedAs pos cs rest [l] :=
  ⟨[t], by rw [List.map_singleton, hl], by rw [scan_eq, h]; rfl⟩

/-- Characters that the scan passes over give no token. -/
theorem blank {pos : Nat} {cs rest : List Char}
    (h : next? ⟨pos, cs ++ rest⟩ = next? ⟨pos + Text.bytes cs, rest⟩) :
    ScannedAs pos cs rest [] := by
  refine ⟨[], rfl, ?_⟩
  rw [Scan.prepend_nil, scan_eq, h, ← scan_eq]

end ScannedAs

end Literal

end ColumnMetadata
