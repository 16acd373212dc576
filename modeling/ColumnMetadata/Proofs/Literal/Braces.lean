import ColumnMetadata.Definition.Block
import ColumnMetadata.Proofs.Literal.Grammar

/-!
# The brace that closes an object

The search for the brace that closes a block counts braces and knows nothing of the grammar. Inside
an object it passes over each value, because the braces of a value match (`IsValue.balanced`), and
so it ends where the reader ends (`closing_of_isValue`). When the reader fails instead, it does so
at a token that the search passes or ends at (`members_error`): it comes to no error of the scan,
because the search, which passes over all those tokens, did not.
-/

namespace ColumnMetadata.Literal

/-! ## Matching braces -/

/-- The braces of tokens match, so that the search inside a brace goes on behind the tokens as it
was in front of them. -/
def Balanced (ls : List Lexeme) : Prop :=
  ∀ (e : Ending) (opened depth : Nat) (ts rest : List Token), ts.map Token.lexeme = ls →
    0 < depth → Block.closing e opened depth (ts ++ rest) = Block.closing e opened depth rest

namespace Balanced

theorem nil : Balanced [] := by
  intro e opened depth ts rest hts _
  rw [List.map_eq_nil_iff.1 hts, List.nil_append]

theorem append {l m : List Lexeme} (hl : Balanced l) (hm : Balanced m) : Balanced (l ++ m) := by
  intro e opened depth ts rest hts hdepth
  obtain ⟨a, b, rfl, ha, hb⟩ := List.map_eq_append_iff.1 hts
  rw [List.append_assoc, hl e opened depth a _ ha hdepth, hm e opened depth b _ hb hdepth]

/-- A token that is no brace does not count. -/
theorem cons {l : Lexeme} {ls : List Lexeme} (hl : l ≠ .openBrace ∧ l ≠ .closeBrace)
    (h : Balanced ls) : Balanced (l :: ls) := by
  intro e opened depth ts rest hts hdepth
  obtain ⟨t, us, rfl, rfl, hus⟩ := List.map_eq_cons_iff.1 hts
  rw [List.cons_append, Block.closing]
  split
  · next he => exact absurd he hl.1
  · next he => exact absurd he hl.2
  · exact h e opened depth us rest hus hdepth

theorem braces {l : List Lexeme} (h : Balanced l) :
    Balanced (.openBrace :: (l ++ [.closeBrace])) := by
  intro e opened depth ts rest hts hdepth
  obtain ⟨t, us, rfl, ht, hus⟩ := List.map_eq_cons_iff.1 hts
  obtain ⟨a, t', b, rfl, ha, ht', hb⟩ := exists_split hus
  rw [List.map_eq_nil_iff.1 hb, List.cons_append, List.append_assoc, Block.closing, ht]
  dsimp only
  rw [h e opened (depth + 1) a _ ha (Nat.succ_pos _), List.singleton_append, Block.closing, ht']
  dsimp only
  rw [if_neg (by omega), Nat.add_sub_cancel]

end Balanced

theorem IsKey.ne_brace {l : Lexeme} {k : String} (h : IsKey l k) :
    l ≠ .openBrace ∧ l ≠ .closeBrace := by
  cases h <;> exact ⟨nofun, nofun⟩

theorem IsTrailing.balanced {ls : List Lexeme} (h : IsTrailing ls) : Balanced ls := by
  cases h with
  | nothing => exact .nil
  | comma => exact .cons (by decide) .nil

mutual

theorem IsValue.balanced : ∀ {room : Nat} {ls : List Lexeme} {v : Value}, IsValue room ls v →
    Balanced ls
  | _, _, _, .string _ | _, _, _, .number _ _ => .cons (by simp) .nil
  | _, _, _, .true | _, _, _, .false | _, _, _, .null => .cons (by decide) .nil
  | _, _, _, .emptyObject => .braces .nil
  | _, _, _, .object h htrailing _ => .braces (h.balanced.append htrailing.balanced)
  | _, _, _, .emptyArray => .cons (by decide) (.cons (by decide) .nil)
  | _, _, _, .array h htrailing =>
    .cons (by decide) ((h.balanced.append htrailing.balanced).append (.cons (by decide) .nil))

theorem AreMembers.balanced : ∀ {room : Nat} {ls : List Lexeme} {members : List (String × Value)},
    AreMembers room ls members → Balanced ls
  | _, _, _, .one hk hv => .cons hk.ne_brace (.cons (by decide) hv.balanced)
  | _, _, _, .more hk hv h =>
    .cons hk.ne_brace
      (.cons (by decide) (hv.balanced.append (.cons (by decide) h.balanced)))

theorem AreItems.balanced : ∀ {room : Nat} {ls : List Lexeme} {items : List Value},
    AreItems room ls items → Balanced ls
  | _, _, _, .one hv => hv.balanced
  | _, _, _, .more hv h => hv.balanced.append (.cons (by decide) h.balanced)

end

theorem IsValue.exists_balanced {room : Nat} {ls : List Lexeme} {v : Value}
    (h : IsValue room (.openBrace :: ls) v) : ∃ ms, ls = ms ++ [.closeBrace] ∧ Balanced ms := by
  cases h with
  | emptyObject => exact ⟨[], rfl, .nil⟩
  | object h htrailing _ => exact ⟨_, rfl, h.balanced.append htrailing.balanced⟩

/-- The search from the opening brace of an object ends behind the object's last token. -/
theorem closing_of_isValue (e : Ending) (opened pos : Nat) {room : Nat} {ts : List Token}
    {ls : List Lexeme} {v : Value} (h : IsValue room (.openBrace :: ls) v)
    (hts : ts.map Token.lexeme = .openBrace :: ls) (rest : List Token) :
    Block.closing e opened 0 (ts ++ rest) = .ok (lastStop pos ts) := by
  obtain ⟨ms, rfl, hbalanced⟩ := h.exists_balanced
  obtain ⟨t, us, rfl, ht, hus⟩ := List.map_eq_cons_iff.1 hts
  obtain ⟨a, close, b, rfl, ha, hclose, hb⟩ := exists_split hus
  rw [List.map_eq_nil_iff.1 hb, List.cons_append, List.append_assoc, Block.closing, ht]
  dsimp only
  rw [hbalanced e opened 1 a _ ha Nat.one_pos, List.singleton_append, Block.closing, hclose,
    ← List.cons_append, lastStop_concat]
  rfl

/-! ## When the reader fails -/

/-- The error is reported at one of the tokens, and the search, going on from this token, ends at
`stop`. -/
def FailsAt (e : Ending) (opened stop : Nat) (ts : List Token) (err : SyntaxError) : Prop :=
  ∃ before t after depth, ts = before ++ t :: after ∧ err.offset = t.start ∧
    Block.closing e opened depth (t :: after) = .ok stop ∧ err.cause ≠ .contentInBlock

section Failing

variable {e : Ending} {opened stop braces : Nat} {ts : List Token} {err : SyntaxError}

theorem FailsAt.append (h : FailsAt e opened stop ts err) (us : List Token) :
    FailsAt e opened stop (us ++ ts) err := by
  obtain ⟨before, t, after, depth, rfl, hoffset, hclosing, hcause⟩ := h
  exact ⟨us ++ before, t, after, depth, (List.append_assoc ..).symm, hoffset, hclosing, hcause⟩

theorem FailsAt.cons (t : Token) (h : FailsAt e opened stop ts err) :
    FailsAt e opened stop (t :: ts) err := h.append [t]

theorem FailsAt.here {t : Token} (h : Block.closing e opened braces (t :: ts) = .ok stop)
    {cause : SyntaxError.Cause} (hcause : cause ≠ .contentInBlock) :
    FailsAt e opened stop (t :: ts) ⟨t.start, cause⟩ :=
  ⟨[], t, ts, braces, rfl, rfl, h, hcause⟩

theorem closing_nil_ne : Block.closing e opened braces [] ≠ .ok stop := by
  unfold Block.closing
  cases e <;> nofun

theorem closing_openBrace {t : Token} (ht : t.lexeme = .openBrace) :
    Block.closing e opened braces (t :: ts) = Block.closing e opened (braces + 1) ts := by
  rw [Block.closing, ht]

theorem closing_cons {t : Token} (ht : t.lexeme ≠ .openBrace ∧ t.lexeme ≠ .closeBrace) :
    Block.closing e opened braces (t :: ts) = Block.closing e opened braces ts := by
  rw [Block.closing]
  split
  · next h => exact absurd h ht.1
  · next h => exact absurd h ht.2
  · rfl

theorem take_eq_error {what : Expected} {u : Unread} (h : e.take what u = .error err) :
    u.tokens = [] := by
  unfold Ending.take at h
  split at h
  · next hnil => exact hnil
  · cases h

theorem leaf_error {l : Lexeme} {cause : SyntaxError.Cause} (h : l.leaf = .error cause) :
    cause ≠ .contentInBlock := by
  unfold Lexeme.leaf at h
  repeat' split at h
  all_goals
    cases h
    try nofun

/-- While the search goes on from the same token, a token is there to be taken. -/
theorem take_ne_error {what : Expected} {u : Unread}
    (hclosing : Block.closing e opened braces u.tokens = .ok stop) :
    e.take what u ≠ .error err := by
  intro h
  rw [take_eq_error h] at hclosing
  exact closing_nil_ne hclosing

/-- What fails behind the taking of a token fails behind the first token. -/
theorem exists_token {β : Type} {what : Expected} {u : Unread}
    {next : Token × Unread → Except SyntaxError β}
    (hclosing : Block.closing e opened braces u.tokens = .ok stop)
    (h : (e.take what u >>= next) = .error err) :
    ∃ t u', u.tokens = t :: u'.tokens ∧ next (t, u') = .error err := by
  rcases bind_eq_error.1 h with h | ⟨⟨t, u'⟩, ht, h⟩
  · exact absurd h (take_ne_error hclosing)
  · exact ⟨t, u', (take_eq_ok.1 ht).1, h⟩

/-- What fails behind the reading of a value fails in the value or behind its tokens, from where the
search goes on to the same end. -/
theorem exists_rest {β : Type} {n room depth : Nat} {u : Unread}
    {next : Value × Unread → Except SyntaxError β} (hroom : depth + room = maxDepth)
    (hbraces : 0 < braces) (hclosing : Block.closing e opened braces u.tokens = .ok stop)
    (h : (value e n depth u >>= next) = .error err) :
    value e n depth u = .error err ∨ ∃ ts w u', u.tokens = ts ++ u'.tokens ∧
      Block.closing e opened braces u'.tokens = .ok stop ∧ next (w, u') = .error err := by
  rcases bind_eq_error.1 h with h | ⟨⟨w, u'⟩, hw, h⟩
  · exact .inl h
  · obtain ⟨ts, hts, -, hderived⟩ := value_sound e n hroom hw
    rw [hts, hderived.balanced e opened braces ts _ rfl hbraces] at hclosing
    exact .inr ⟨ts, w, u', hts, hclosing, h⟩

end Failing

mutual

/-- The reader, started inside a brace at a token from which the search ends, fails at a token that
the search comes to. -/
theorem value_error {e : Ending} {opened stop : Nat} : ∀ (n : Nat) {room depth braces : Nat}
    {u : Unread} {err : SyntaxError}, depth + room = maxDepth → 2 * u.tokens.length + 1 ≤ n →
    0 < braces → Block.closing e opened braces u.tokens = .ok stop →
    value e n depth u = .error err → FailsAt e opened stop u.tokens err
  | 0, _, _, _, _, _, _, hn, _, _, _ => nomatch hn
  | n + 1, room, depth, braces, u, err, hroom, hn, hbraces, hclosing, h => by
    rw [value] at h
    obtain ⟨t, u₁, htokens, h⟩ := exists_token hclosing h
    rw [htokens] at hclosing hn ⊢
    rw [List.length_cons] at hn
    dsimp only at h
    split at h
    · next hopen =>
      split at h
      · next hdepth =>
        have hroom : depth + 1 + (room - 1) = maxDepth := by omega
        -- The search counts the brace, and goes on one deeper.
        rw [closing_openBrace hopen] at hclosing
        exact (members_error n hroom (by omega) (Nat.succ_pos _) hclosing h).cons t
      · cases h
        exact .here hclosing nofun
    · next hopen =>
      split at h
      · next hdepth =>
        have hroom : depth + 1 + (room - 1) = maxDepth := by omega
        rw [closing_cons (by rw [hopen]; decide)] at hclosing
        have hitems := items_error n hroom (by rw [lookAhead_tokens]; omega) hbraces
          (by rwa [lookAhead_tokens]) h
        rw [lookAhead_tokens] at hitems
        exact hitems.cons t
      · cases h
        exact .here hclosing nofun
    · split at h
      · cases h
      · next hleaf =>
        cases h
        exact .here hclosing (leaf_error hleaf)

theorem members_error {e : Ending} {opened stop : Nat} : ∀ (n : Nat) {room depth braces : Nat}
    {fields : Entries Value} {u : Unread} {err : SyntaxError}, depth + room = maxDepth →
    2 * u.tokens.length + 1 ≤ n → 0 < braces →
    Block.closing e opened braces u.tokens = .ok stop →
    members e n depth fields u = .error err → FailsAt e opened stop u.tokens err
  | 0, _, _, _, _, _, _, _, hn, _, _, _ => nomatch hn
  | n + 1, room, depth, braces, fields, u, err, hroom, hn, hbraces, hclosing, h => by
    rw [members] at h
    obtain ⟨t, u₁, htokens, h⟩ := exists_token hclosing h
    rw [htokens] at hclosing hn ⊢
    rw [List.length_cons] at hn
    dsimp only at h
    split at h
    · cases h
    split at h
    · cases h
      exact .here hclosing nofun
    next key hkey =>
    -- Neither the key nor the colon nor the value changes what the search has counted. So behind each
    -- of them a token is there, and it is not the end of the scan that the reader fails at.
    rw [closing_cons (key?_eq_some.1 hkey).ne_brace] at hclosing
    refine .cons t ?_
    obtain ⟨colon, u₂, htokens₂, h⟩ := exists_token hclosing h
    rw [htokens₂] at hclosing hn ⊢
    rw [List.length_cons] at hn
    dsimp only at h
    split at h
    case isFalse =>
      cases h
      exact .here hclosing nofun
    next hcolon =>
    rw [closing_cons (by rw [hcolon]; decide)] at hclosing
    refine .cons colon ?_
    rcases exists_rest hroom hbraces hclosing h with h | ⟨ts, w, u₃, hts, hclosing, h⟩
    · exact value_error n hroom (by omega) hbraces ‹_› h
    rw [hts] at hn ⊢
    rw [List.length_append] at hn
    refine .append ?_ ts
    obtain ⟨t', u₄, htokens₄, h⟩ := exists_token hclosing h
    rw [htokens₄] at hclosing hn ⊢
    rw [List.length_cons] at hn
    dsimp only at h
    split at h
    · next hcomma =>
      rw [closing_cons (by rw [hcomma]; decide)] at hclosing
      have hmembers := members_error n hroom (by rw [lookAhead_tokens]; omega) hbraces
        (by rwa [lookAhead_tokens]) h
      rw [lookAhead_tokens] at hmembers
      exact hmembers.cons t'
    · cases h
    · cases h
      exact .here hclosing nofun

theorem items_error {e : Ending} {opened stop : Nat} : ∀ (n : Nat) {room depth braces : Nat}
    {done : List Value} {u : Unread} {err : SyntaxError}, depth + room = maxDepth →
    2 * u.tokens.length + 2 ≤ n → 0 < braces →
    Block.closing e opened braces u.tokens = .ok stop →
    items e n depth done u = .error err → FailsAt e opened stop u.tokens err
  | 0, _, _, _, _, _, _, _, hn, _, _, _ => nomatch hn
  | n + 1, room, depth, braces, done, u, err, hroom, hn, hbraces, hclosing, h => by
    unfold items at h
    split at h
    · cases h
    rcases exists_rest hroom hbraces hclosing h with h | ⟨ts, w, u₁, hts, hclosing, h⟩
    · exact value_error n hroom (by omega) hbraces ‹_› h
    rw [hts] at hn ⊢
    rw [List.length_append] at hn
    refine .append ?_ ts
    obtain ⟨t, u₂, htokens, h⟩ := exists_token hclosing h
    rw [htokens] at hclosing hn ⊢
    rw [List.length_cons] at hn
    dsimp only at h
    split at h
    · next hcomma =>
      rw [closing_cons (by rw [hcomma]; decide)] at hclosing
      have hitems := items_error n hroom (by rw [lookAhead_tokens]; omega) hbraces
        (by rwa [lookAhead_tokens]) h
      rw [lookAhead_tokens] at hitems
      exact hitems.cons t
    · cases h
    · cases h
      exact .here hclosing nofun

end

end ColumnMetadata.Literal
