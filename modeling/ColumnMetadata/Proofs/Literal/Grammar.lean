import ColumnMetadata.Literal.Parse
import ColumnMetadata.Proofs.Literal.Scanning
import ColumnMetadata.Proofs.Value.Shape

/-!
# The grammar of object literals

Which token sequences are values, and which ones, said apart from the reader:

```text
value  := object | array | string | number | true | false | null
object := '{' [ member (',' member)* [','] ] '}'
member := key ':' value
key    := word | string | number
array  := '[' [ value (',' value)* [','] ] ']'
```

`IsValue room` is the first line while `room` more containers may be opened. Whatever the reader
takes from the tokens is derived by the grammar (`value_sound`), and what the grammar derives the
reader takes (`IsValue.reads`). So a text is read exactly when all of it is tokens and these are a
value (`parse_eq_ok_iff`).
-/

namespace ColumnMetadata.Literal

/-! ## Derivations -/

/-- `key`: a token that is a key, and the key's text. -/
inductive IsKey : Lexeme → String → Prop
  | word (w : String) : IsKey (.word w) w
  | string (s : String) : IsKey (.string s) s
  | number (t : String) (x : Number) : IsKey (.number t x) t

/-- `[',']`: what may stand behind the last member of a container. -/
inductive IsTrailing : List Lexeme → Prop
  | nothing : IsTrailing []
  | comma : IsTrailing [.comma]

mutual

/-- `value`, while `room` more containers may be opened. -/
inductive IsValue : Nat → List Lexeme → Value → Prop
  | string {room : Nat} (s : String) : IsValue room [.string s] (.string s)
  | number {room : Nat} (t : String) (x : Number) : IsValue room [.number t x] (.number x)
  | true {room : Nat} : IsValue room [.word "true"] (.bool true)
  | false {room : Nat} : IsValue room [.word "false"] (.bool false)
  | null {room : Nat} : IsValue room [.word "null"] .null
  | emptyObject {room : Nat} : IsValue (room + 1) [.openBrace, .closeBrace] (.object [])
  | object {room : Nat} {ls trailing : List Lexeme} {members : List (String × Value)}
      {fields : Entries Value} (h : AreMembers room ls members) (htrailing : IsTrailing trailing)
      (hfields : Entries.Collects members fields) :
      IsValue (room + 1) (.openBrace :: (ls ++ trailing ++ [.closeBrace])) (.object fields)
  | emptyArray {room : Nat} : IsValue (room + 1) [.openBracket, .closeBracket] (.array [])
  | array {room : Nat} {ls trailing : List Lexeme} {items : List Value} (h : AreItems room ls items)
      (htrailing : IsTrailing trailing) :
      IsValue (room + 1) (.openBracket :: (ls ++ trailing ++ [.closeBracket])) (.array items)

/-- `member (',' member)*`: the members of an object, those with repeated keys too. -/
inductive AreMembers : Nat → List Lexeme → List (String × Value) → Prop
  | one {room : Nat} {l : Lexeme} {k : String} {ls : List Lexeme} {v : Value} (hk : IsKey l k)
      (hv : IsValue room ls v) : AreMembers room (l :: .colon :: ls) [(k, v)]
  | more {room : Nat} {l : Lexeme} {k : String} {ls ms : List Lexeme} {v : Value}
      {members : List (String × Value)} (hk : IsKey l k) (hv : IsValue room ls v)
      (h : AreMembers room ms members) :
      AreMembers room (l :: .colon :: (ls ++ .comma :: ms)) ((k, v) :: members)

/-- `value (',' value)*`: the items of an array. -/
inductive AreItems : Nat → List Lexeme → List Value → Prop
  | one {room : Nat} {ls : List Lexeme} {v : Value} (hv : IsValue room ls v) : AreItems room ls [v]
  | more {room : Nat} {ls ms : List Lexeme} {v : Value} {items : List Value}
      (hv : IsValue room ls v) (h : AreItems room ms items) :
      AreItems room (ls ++ .comma :: ms) (v :: items)

end

theorem key?_eq_some {l : Lexeme} {k : String} : l.key? = some k ↔ IsKey l k := by
  constructor
  · intro h
    cases l <;> cases h
    · exact .string _
    · exact .number _ _
    · exact .word _
  · rintro ⟨⟩ <;> rfl

/-- The tokens that are values by themselves. -/
theorem isValue_of_leaf {l : Lexeme} {v : Value} (h : l.leaf = .ok v) (room : Nat) :
    IsValue room [l] v := by
  unfold Lexeme.leaf at h
  split at h
  · cases h
    exact .string _
  · cases h
    exact .number _ _
  · split at h
    · next hw =>
      cases h
      exact hw ▸ .true
    · split at h
      · next hw =>
        cases h
        exact hw ▸ .false
      · split at h
        · next hw =>
          cases h
          exact hw ▸ .null
        · cases h
  · cases h

theorem IsValue.ne_nil {room : Nat} {ls : List Lexeme} {v : Value} (h : IsValue room ls v) :
    ∃ l ms, ls = l :: ms ∧ l ≠ .closeBracket := by
  cases h <;> exact ⟨_, _, rfl, nofun⟩

/-! ## Nesting -/

mutual

/-- A derived value nests no deeper than there was room for, and no key occurs twice in one of its
objects. -/
theorem IsValue.fits : ∀ {room : Nat} {ls : List Lexeme} {v : Value}, IsValue room ls v →
    v.Fits room
  | _, _, _, .string s => .string s
  | _, _, _, .number _ x => .number x
  | _, _, _, .true => .bool true
  | _, _, _, .false => .bool false
  | _, _, _, .null => .null
  | _, _, _, .emptyObject => .object Entries.distinct_nil (by simp)
  | _, _, _, .object h _ hfields => by
    rw [Entries.collects_iff.1 hfields]
    refine .object (Entries.distinct_ofPairs _) fun p hp => h.fits p ?_
    exact (Entries.mem_insertAll hp).resolve_left List.not_mem_nil
  | _, _, _, .emptyArray => .array (by simp)
  | _, _, _, .array h _ => .array h.fits

theorem AreMembers.fits : ∀ {room : Nat} {ls : List Lexeme} {members : List (String × Value)},
    AreMembers room ls members → ∀ p ∈ members, p.2.Fits room
  | _, _, _, .one _ hv => List.forall_mem_singleton.2 hv.fits
  | _, _, _, .more _ hv h => List.forall_mem_cons.2 ⟨hv.fits, h.fits⟩

theorem AreItems.fits : ∀ {room : Nat} {ls : List Lexeme} {items : List Value},
    AreItems room ls items → ∀ v ∈ items, v.Fits room
  | _, _, _, .one hv => List.forall_mem_singleton.2 hv.fits
  | _, _, _, .more hv h => List.forall_mem_cons.2 ⟨hv.fits, h.fits⟩

end

/-! ## What the reader takes is derived -/

/-- What may stand between the brackets of a container whose members are of the given kind. -/
inductive Listed {β : Type} (P : List Lexeme → List β → Prop) : List Lexeme → List β → Prop
  | nothing : Listed P [] []
  | some {ls trailing : List Lexeme} {xs : List β} (h : P ls xs) (htrailing : IsTrailing trailing) :
      Listed P (ls ++ trailing) xs

section Listed

variable {room : Nat} {ls ms : List Lexeme}

theorem Listed.member {l : Lexeme} {k : String} {v : Value} {members : List (String × Value)}
    (hk : IsKey l k) (hv : IsValue room ls v) (h : Listed (AreMembers room) ms members) :
    Listed (AreMembers room) (l :: .colon :: (ls ++ .comma :: ms)) ((k, v) :: members) := by
  cases h with
  | nothing => exact .some (AreMembers.one hk hv) .comma
  | some h htrailing =>
    have hmore := Listed.some (AreMembers.more hk hv h) htrailing
    rwa [List.cons_append, List.cons_append, List.append_assoc, List.cons_append] at hmore

theorem Listed.item {v : Value} {items : List Value} (hv : IsValue room ls v)
    (h : Listed (AreItems room) ms items) :
    Listed (AreItems room) (ls ++ .comma :: ms) (v :: items) := by
  cases h with
  | nothing => exact .some (AreItems.one hv) .comma
  | some h htrailing =>
    have hmore := Listed.some (AreItems.more hv h) htrailing
    rwa [List.append_assoc, List.cons_append] at hmore

theorem Listed.isObject {members : List (String × Value)} (h : Listed (AreMembers room) ls members) :
    IsValue (room + 1) (.openBrace :: (ls ++ [.closeBrace])) (.object (Entries.ofPairs members)) := by
  cases h with
  | nothing => exact .emptyObject
  | some h htrailing => exact .object h htrailing (Entries.collects_ofPairs members)

theorem Listed.isArray {items : List Value} (h : Listed (AreItems room) ls items) :
    IsValue (room + 1) (.openBracket :: (ls ++ [.closeBracket])) (.array items) := by
  cases h with
  | nothing => exact .emptyArray
  | some h htrailing => exact .array h htrailing

end Listed

/-- The byte offset behind the last of some tokens that were read from an offset on. -/
def lastStop : Nat → List Token → Nat
  | pos, [] => pos
  | _, t :: ts => lastStop t.stop ts

theorem lastStop_append (pos : Nat) (ts us : List Token) :
    lastStop pos (ts ++ us) = lastStop (lastStop pos ts) us := by
  induction ts generalizing pos with
  | nil => rfl
  | cons t ts ih => exact ih t.stop

theorem lastStop_concat (pos : Nat) (ts : List Token) (t : Token) :
    lastStop pos (ts ++ [t]) = t.stop := by
  rw [lastStop_append]
  rfl

theorem take_eq_ok {e : Ending} {what : Expected} {u u' : Unread} {t : Token} :
    e.take what u = .ok (t, u') ↔ u.tokens = t :: u'.tokens ∧ u'.pos = t.stop := by
  obtain ⟨pos, tokens⟩ := u
  obtain ⟨pos', tokens'⟩ := u'
  unfold Ending.take
  cases tokens with
  | nil => simp
  | cons t' ts =>
    simp only [Except.ok.injEq, Prod.mk.injEq, Unread.mk.injEq, List.cons.injEq]
    constructor
    · rintro ⟨rfl, rfl, rfl⟩
      exact ⟨⟨rfl, rfl⟩, rfl⟩
    · rintro ⟨⟨rfl, rfl⟩, rfl⟩
      exact ⟨rfl, rfl, rfl⟩

@[simp] theorem lookAhead_tokens (e : Ending) (u : Unread) : (e.lookAhead u).tokens = u.tokens := by
  unfold Ending.lookAhead
  split <;> rfl

mutual

/-- The tokens that the reader takes for a value are a value of the grammar, and the reader ends
behind the last of them. -/
theorem value_sound (e : Ending) : ∀ (n : Nat) {room depth : Nat} {u u' : Unread} {v : Value},
    depth + room = maxDepth → value e n depth u = .ok (v, u') →
    ∃ ts, u.tokens = ts ++ u'.tokens ∧ u'.pos = lastStop u.pos ts ∧
      IsValue room (ts.map Token.lexeme) v
  | 0, _, _, _, _, _, _, h => nomatch h
  | n + 1, room, depth, u, u', v, hroom, h => by
    rw [value] at h
    obtain ⟨⟨t, u₁⟩, ht, h⟩ := bind_eq_ok.1 h
    obtain ⟨htokens, hpos⟩ := take_eq_ok.1 ht
    dsimp only at h
    split at h
    · next hopen =>
      split at h
      · next hdepth =>
        obtain ⟨room, rfl⟩ : ∃ r, room = r + 1 := ⟨room - 1, by omega⟩
        have hroom : depth + 1 + room = maxDepth := by omega
        obtain ⟨ts, t', members, hts, hclose, hstop, hlisted, rfl⟩ := members_sound e n hroom h
        refine ⟨t :: (ts ++ [t']), by simp [htokens, hts], ?_, ?_⟩
        · rw [← List.cons_append, lastStop_concat, hstop]
        · simpa [hopen, hclose, Entries.ofPairs] using hlisted.isObject
      · cases h
    · next hopen =>
      split at h
      · next hdepth =>
        obtain ⟨room, rfl⟩ : ∃ r, room = r + 1 := ⟨room - 1, by omega⟩
        have hroom : depth + 1 + room = maxDepth := by omega
        obtain ⟨ts, t', items, hts, hclose, hstop, hlisted, rfl⟩ := items_sound e n hroom h
        rw [lookAhead_tokens] at hts
        refine ⟨t :: (ts ++ [t']), by simp [htokens, hts], ?_, ?_⟩
        · rw [← List.cons_append, lastStop_concat, hstop]
        · simpa [hopen, hclose] using hlisted.isArray
      · cases h
    · split at h
      · next hleaf =>
        cases h
        exact ⟨[t], htokens, hpos, isValue_of_leaf hleaf room⟩
      · cases h

/-- The same for what is left of an object behind some fields. -/
theorem members_sound (e : Ending) : ∀ (n : Nat) {room depth : Nat} {fields : Entries Value}
    {u u' : Unread} {v : Value}, depth + room = maxDepth →
    members e n depth fields u = .ok (v, u') →
    ∃ ts t members, u.tokens = ts ++ t :: u'.tokens ∧ t.lexeme = .closeBrace ∧ u'.pos = t.stop ∧
      Listed (AreMembers room) (ts.map Token.lexeme) members ∧
      v = .object (Entries.insertAll fields members)
  | 0, _, _, _, _, _, _, _, h => nomatch h
  | n + 1, room, depth, fields, u, u', v, hroom, h => by
    rw [members] at h
    obtain ⟨⟨t, u₁⟩, ht, h⟩ := bind_eq_ok.1 h
    obtain ⟨htokens, hpos⟩ := take_eq_ok.1 ht
    dsimp only at h
    split at h
    · next hclose =>
      cases h
      exact ⟨[], t, [], htokens, hclose, hpos, .nothing, rfl⟩
    · split at h
      · cases h
      · next key hkey =>
        obtain ⟨⟨colon, u₂⟩, hcolon, h⟩ := bind_eq_ok.1 h
        obtain ⟨htokens₂, -⟩ := take_eq_ok.1 hcolon
        dsimp only at h
        split at h
        · next hcolon =>
          obtain ⟨⟨w, u₃⟩, hw, h⟩ := bind_eq_ok.1 h
          obtain ⟨ts, hts, -, hderived⟩ := value_sound e n hroom hw
          obtain ⟨⟨t', u₄⟩, ht', h⟩ := bind_eq_ok.1 h
          obtain ⟨htokens₄, hpos₄⟩ := take_eq_ok.1 ht'
          have hkey := key?_eq_some.1 hkey
          dsimp only at htokens₂ hts htokens₄ h
          split at h
          · next hcomma =>
            obtain ⟨us, close, members, hus, hclose, hstop, hlisted, rfl⟩ :=
              members_sound e n hroom h
            rw [lookAhead_tokens] at hus
            refine ⟨t :: colon :: (ts ++ t' :: us), close, (key, w) :: members, ?_, hclose, hstop,
              ?_, rfl⟩
            · simp [htokens, htokens₂, hts, htokens₄, hus]
            · simpa [hcolon, hcomma] using hlisted.member hkey hderived
          · next hclose =>
            cases h
            refine ⟨t :: colon :: ts, t', [(key, w)], ?_, hclose, hpos₄, ?_, rfl⟩
            · simp [htokens, htokens₂, hts, htokens₄]
            · simpa [hcolon] using Listed.some (AreMembers.one hkey hderived) .nothing
          · cases h
        · cases h

/-- The same for what is left of an array behind some items. -/
theorem items_sound (e : Ending) : ∀ (n : Nat) {room depth : Nat} {done : List Value}
    {u u' : Unread} {v : Value}, depth + room = maxDepth → items e n depth done u = .ok (v, u') →
    ∃ ts t items, u.tokens = ts ++ t :: u'.tokens ∧ t.lexeme = .closeBracket ∧ u'.pos = t.stop ∧
      Listed (AreItems room) (ts.map Token.lexeme) items ∧ v = .array (done ++ items)
  | 0, _, _, _, _, _, _, _, h => nomatch h
  | n + 1, room, depth, done, u, u', v, hroom, h => by
    unfold items at h
    split at h
    · next hclose =>
      -- The array ends where an item could begin: it is empty, or a comma stands behind its last one.
      cases h
      exact ⟨[], _, [], hclose, rfl, rfl, .nothing, by rw [List.append_nil]⟩
    · obtain ⟨⟨w, u₁⟩, hw, h⟩ := bind_eq_ok.1 h
      obtain ⟨ts, hts, -, hderived⟩ := value_sound e n hroom hw
      obtain ⟨⟨t', u₂⟩, ht', h⟩ := bind_eq_ok.1 h
      obtain ⟨htokens, hpos⟩ := take_eq_ok.1 ht'
      dsimp only at hts htokens h
      split at h
      · next hcomma =>
        obtain ⟨us, close, items, hus, hclose, hstop, hlisted, rfl⟩ := items_sound e n hroom h
        rw [lookAhead_tokens] at hus
        refine ⟨ts ++ t' :: us, close, w :: items, ?_, hclose, hstop, ?_, ?_⟩
        · simp [hts, htokens, hus]
        · simpa [hcomma] using hlisted.item hderived
        · rw [List.append_assoc, List.singleton_append]
      · next hclose =>
        cases h
        refine ⟨ts, t', [w], by rw [hts, htokens], hclose, hpos, ?_, rfl⟩
        simpa using Listed.some (AreItems.one hderived) .nothing
      · cases h

end

/-- A value that was read from a text has distinct keys and is not nested too deeply. -/
theorem fits_of_parseAt {text : List Char} {start stop : Nat} {v : Value}
    (h : parseAt text start = .ok (v, stop)) : v.Fits maxDepth := by
  obtain ⟨⟨v', u⟩, hv, he⟩ := map_eq_ok.1 h
  cases he
  obtain ⟨ts, -, -, hderived⟩ := value_sound _ _ (Nat.zero_add _) hv
  exact hderived.fits

/-! ## What is derived is read -/

/-- Tokens of given kinds, cut at one of them. -/
theorem exists_split {ts : List Token} {ls ms : List Lexeme} {l : Lexeme}
    (h : ts.map Token.lexeme = ls ++ l :: ms) :
    ∃ (a : List Token) (t : Token) (b : List Token), ts = a ++ t :: b ∧
      a.map Token.lexeme = ls ∧ t.lexeme = l ∧ b.map Token.lexeme = ms := by
  obtain ⟨a, us, rfl, ha, hus⟩ := List.map_eq_append_iff.1 h
  obtain ⟨t, b, rfl, ht, hb⟩ := List.map_eq_cons_iff.1 hus
  exact ⟨a, t, b, rfl, ha, ht, hb⟩

/-- Where a token follows, looking ahead changes nothing. -/
theorem lookAhead_eq_self (e : Ending) {u : Unread} (h : u.tokens ≠ []) : e.lookAhead u = u := by
  unfold Ending.lookAhead
  split
  · next hnil => exact absurd hnil h
  · rfl

theorem append_ne_nil_of_lexemes {ts : List Token} {ls ms : List Lexeme} {l : Lexeme}
    (h : ts.map Token.lexeme = ls ++ (ms ++ [l])) (rest : List Token) : ts ++ rest ≠ [] := by
  intro he
  rw [(List.append_eq_nil_iff.1 he).1] at h
  simp at h

/-- From tokens of these kinds the value is read while a number of containers is open: with one step
for each token, and up to the last of them. -/
def Reads (e : Ending) (depth : Nat) (ls : List Lexeme) (v : Value) : Prop :=
  ∀ (n pos : Nat) (ts rest : List Token), ts.map Token.lexeme = ls → ts.length ≤ n →
    value e n depth ⟨pos, ts ++ rest⟩ = .ok (v, ⟨lastStop pos ts, rest⟩)

section Steps

variable {e : Ending} {n depth pos : Nat} {ts rest : List Token}

theorem reads_leaf {l : Lexeme} {v : Value} (h : l.leaf = .ok v) : Reads e depth [l] v := by
  intro n pos ts rest hts hn
  obtain ⟨t, us, rfl, ht, hus⟩ := List.map_eq_cons_iff.1 hts
  obtain rfl := List.map_eq_nil_iff.1 hus
  obtain ⟨n, rfl⟩ : ∃ m, n = m + 1 := Nat.exists_eq_add_of_le' hn
  rw [value]
  refine bind_eq_ok.2 ⟨(t, ⟨t.stop, rest⟩), rfl, ?_⟩
  rw [← ht] at h
  dsimp only
  split
  · next hopen =>
    rw [hopen] at h
    cases h
  · next hopen =>
    rw [hopen] at h
    cases h
  · rw [h]
    rfl

/-- Reading a container goes on behind its opening token. -/
theorem value_openBrace (e : Ending) (n : Nat) (h : depth < maxDepth) (pos : Nat)
    {t : Token} (ht : t.lexeme = .openBrace) (ts : List Token) :
    value e (n + 1) depth ⟨pos, t :: ts⟩ = members e n (depth + 1) [] ⟨t.stop, ts⟩ := by
  rw [value]
  simp [Ending.take, bind, Except.bind, ht, h]

theorem value_openBracket (e : Ending) (n : Nat) (h : depth < maxDepth) (pos : Nat)
    {t : Token} (ht : t.lexeme = .openBracket) (ts : List Token) :
    value e (n + 1) depth ⟨pos, t :: ts⟩ =
      items e n (depth + 1) [] (e.lookAhead ⟨t.stop, ts⟩) := by
  rw [value]
  simp [Ending.take, bind, Except.bind, ht, h]

theorem members_close (fields : Entries Value) {t : Token} (ht : t.lexeme = .closeBrace) :
    members e (n + 1) depth fields ⟨pos, t :: rest⟩ = .ok (.object fields, ⟨t.stop, rest⟩) := by
  rw [members]
  simp [Ending.take, bind, Except.bind, ht]

theorem items_close (done : List Value) {t : Token} (ht : t.lexeme = .closeBracket) :
    items e (n + 1) depth done ⟨pos, t :: rest⟩ = .ok (.array done, ⟨t.stop, rest⟩) := by
  obtain ⟨l, start, stop⟩ := t
  dsimp only at ht
  subst ht
  rfl

/-- Reading a member of an object, and what stands behind it. -/
theorem members_step {fields : Entries Value} {ls : List Lexeme} {v : Value}
    (hv : Reads e depth ls v) (hts : ts.map Token.lexeme = ls) (hn : ts.length ≤ n)
    {key colon : Token} {k : String} (hkey : IsKey key.lexeme k) (hcolon : colon.lexeme = .colon)
    (t : Token) :
    members e (n + 1) depth fields ⟨pos, key :: colon :: (ts ++ t :: rest)⟩ =
      match t.lexeme with
      | .comma => members e n depth (Entries.insert k v fields) (e.lookAhead ⟨t.stop, rest⟩)
      | .closeBrace => .ok (.object (Entries.insert k v fields), ⟨t.stop, rest⟩)
      | found => .error ⟨t.start, .unexpectedToken .commaOrCloseBrace found⟩ := by
  have hopen : key.lexeme ≠ .closeBrace := by
    intro hclose
    rw [hclose] at hkey
    cases hkey
  rw [members]
  simp only [Ending.take, bind, Except.bind, if_neg hopen, key?_eq_some.2 hkey, hcolon]
  rw [hv n colon.stop ts (t :: rest) hts hn]
  rfl

/-- Reading an item of an array, and what stands behind it. -/
theorem items_step {done : List Value} {room : Nat} {ls : List Lexeme} {v : Value}
    (hderived : IsValue room ls v) (hv : Reads e depth ls v) (hts : ts.map Token.lexeme = ls)
    (hn : ts.length ≤ n) (t : Token) :
    items e (n + 1) depth done ⟨pos, ts ++ t :: rest⟩ =
      match t.lexeme with
      | .comma => items e n depth (done ++ [v]) (e.lookAhead ⟨t.stop, rest⟩)
      | .closeBracket => .ok (.array (done ++ [v]), ⟨t.stop, rest⟩)
      | found => .error ⟨t.start, .unexpectedToken .commaOrCloseBracket found⟩ := by
  obtain ⟨l, ms, hls, hne⟩ := hderived.ne_nil
  obtain ⟨u, us, rfl, hu, -⟩ := List.map_eq_cons_iff.1 (hts.trans hls)
  conv =>
    lhs
    unfold items
  split
  · next hclose =>
    cases hclose
    exact absurd hu.symm hne
  · rw [hv n pos (u :: us) (t :: rest) hts hn]
    rfl

/-- Behind the last member of an object, with or without a comma. -/
theorem members_end {trailing : List Lexeme} (htrailing : IsTrailing trailing)
    (hts : ts.map Token.lexeme = trailing ++ [.closeBrace]) (hn : ts.length ≤ n)
    (fields : Entries Value) (pos : Nat) :
    ∃ t us, ts = t :: us ∧
      (match t.lexeme with
      | .comma => members e n depth fields (e.lookAhead ⟨t.stop, us ++ rest⟩)
      | .closeBrace => .ok (.object fields, ⟨t.stop, us ++ rest⟩)
      | found => .error ⟨t.start, .unexpectedToken .commaOrCloseBrace found⟩) =
        .ok (.object fields, ⟨lastStop pos ts, rest⟩) := by
  obtain ⟨us, close, b, rfl, hus, hclose, hb⟩ := exists_split hts
  obtain rfl := List.map_eq_nil_iff.1 hb
  rw [lastStop_concat]
  cases htrailing with
  | nothing =>
    obtain rfl := List.map_eq_nil_iff.1 hus
    exact ⟨close, [], rfl, by rw [hclose]; rfl⟩
  | comma =>
    obtain ⟨comma, vs, rfl, hcomma, hvs⟩ := List.map_eq_cons_iff.1 hus
    obtain rfl := List.map_eq_nil_iff.1 hvs
    obtain ⟨n, rfl⟩ : ∃ m, n = m + 1 := Nat.exists_eq_add_of_le' (Nat.le_trans (by simp) hn)
    refine ⟨comma, [close], rfl, ?_⟩
    rw [hcomma, List.singleton_append]
    dsimp only
    rw [lookAhead_eq_self e (List.cons_ne_nil _ _), members_close _ hclose]

/-- Behind the last item of an array, with or without a comma. -/
theorem items_end {trailing : List Lexeme} (htrailing : IsTrailing trailing)
    (hts : ts.map Token.lexeme = trailing ++ [.closeBracket]) (hn : ts.length ≤ n)
    (done : List Value) (pos : Nat) :
    ∃ t us, ts = t :: us ∧
      (match t.lexeme with
      | .comma => items e n depth done (e.lookAhead ⟨t.stop, us ++ rest⟩)
      | .closeBracket => .ok (.array done, ⟨t.stop, us ++ rest⟩)
      | found => .error ⟨t.start, .unexpectedToken .commaOrCloseBracket found⟩) =
        .ok (.array done, ⟨lastStop pos ts, rest⟩) := by
  obtain ⟨us, close, b, rfl, hus, hclose, hb⟩ := exists_split hts
  obtain rfl := List.map_eq_nil_iff.1 hb
  rw [lastStop_concat]
  cases htrailing with
  | nothing =>
    obtain rfl := List.map_eq_nil_iff.1 hus
    exact ⟨close, [], rfl, by rw [hclose]; rfl⟩
  | comma =>
    obtain ⟨comma, vs, rfl, hcomma, hvs⟩ := List.map_eq_cons_iff.1 hus
    obtain rfl := List.map_eq_nil_iff.1 hvs
    obtain ⟨n, rfl⟩ : ∃ m, n = m + 1 := Nat.exists_eq_add_of_le' (Nat.le_trans (by simp) hn)
    refine ⟨comma, [close], rfl, ?_⟩
    rw [hcomma, List.singleton_append]
    dsimp only
    rw [lookAhead_eq_self e (List.cons_ne_nil _ _), items_close _ hclose]

end Steps

mutual

/-- What is derived while there is room left is read. -/
theorem IsValue.reads (e : Ending) : ∀ {room depth : Nat} {ls : List Lexeme} {v : Value},
    IsValue room ls v → depth + room = maxDepth → Reads e depth ls v
  | _, _, _, _, .string _, _ => reads_leaf rfl
  | _, _, _, _, .number _ _, _ => reads_leaf rfl
  | _, _, _, _, .true, _ => reads_leaf rfl
  | _, _, _, _, .false, _ => reads_leaf rfl
  | _, _, _, _, .null, _ => reads_leaf rfl
  | _, depth, _, _, .emptyObject, hroom => by
    intro n pos ts rest hts hn
    obtain ⟨t, us, rfl, ht, hus⟩ := List.map_eq_cons_iff.1 hts
    obtain ⟨t', us, rfl, ht', hus⟩ := List.map_eq_cons_iff.1 hus
    obtain rfl := List.map_eq_nil_iff.1 hus
    obtain ⟨n, rfl⟩ : ∃ m, n = m + 2 := Nat.exists_eq_add_of_le' hn
    have hdepth : depth < maxDepth := by omega
    rw [List.cons_append, value_openBrace e _ hdepth pos ht, List.cons_append, members_close _ ht']
    rfl
  | room + 1, depth, _, _, .object h htrailing hfields, hroom => by
    intro n pos ts rest hts hn
    obtain ⟨t, us, rfl, ht, hus⟩ := List.map_eq_cons_iff.1 hts
    rw [List.append_assoc] at hus
    obtain ⟨n, rfl⟩ : ∃ m, n = m + 1 := Nat.exists_eq_add_of_le' (Nat.le_trans (by simp) hn)
    have hdepth : depth < maxDepth := by omega
    have hroom' : depth + 1 + room = maxDepth := by omega
    rw [List.cons_append, value_openBrace e _ hdepth pos ht,
      h.reads e hroom' htrailing n t.stop [] us rest hus (Nat.le_of_succ_le_succ hn),
      Entries.collects_iff.1 hfields]
    rfl
  | _, depth, _, _, .emptyArray, hroom => by
    intro n pos ts rest hts hn
    obtain ⟨t, us, rfl, ht, hus⟩ := List.map_eq_cons_iff.1 hts
    obtain ⟨t', us, rfl, ht', hus⟩ := List.map_eq_cons_iff.1 hus
    obtain rfl := List.map_eq_nil_iff.1 hus
    obtain ⟨n, rfl⟩ : ∃ m, n = m + 2 := Nat.exists_eq_add_of_le' hn
    have hdepth : depth < maxDepth := by omega
    rw [List.cons_append, value_openBracket e _ hdepth pos ht, List.cons_append,
      lookAhead_eq_self e (List.cons_ne_nil _ _), items_close _ ht']
    rfl
  | room + 1, depth, _, _, .array h htrailing, hroom => by
    intro n pos ts rest hts hn
    obtain ⟨t, us, rfl, ht, hus⟩ := List.map_eq_cons_iff.1 hts
    rw [List.append_assoc] at hus
    obtain ⟨n, rfl⟩ : ∃ m, n = m + 1 := Nat.exists_eq_add_of_le' (Nat.le_trans (by simp) hn)
    have hdepth : depth < maxDepth := by omega
    have hroom' : depth + 1 + room = maxDepth := by omega
    rw [List.cons_append, value_openBracket e _ hdepth pos ht,
      lookAhead_eq_self e (append_ne_nil_of_lexemes hus rest),
      h.reads e hroom' htrailing n t.stop [] us rest hus (Nat.le_of_succ_le_succ hn)]
    rfl

theorem AreMembers.reads (e : Ending) : ∀ {room depth : Nat} {ls trailing : List Lexeme}
    {members : List (String × Value)}, AreMembers room ls members → depth + room = maxDepth →
    IsTrailing trailing → ∀ (n pos : Nat) (fields : Entries Value) (ts rest : List Token),
    ts.map Token.lexeme = ls ++ (trailing ++ [.closeBrace]) → ts.length ≤ n →
    Literal.members e n depth fields ⟨pos, ts ++ rest⟩ =
      .ok (.object (Entries.insertAll fields members), ⟨lastStop pos ts, rest⟩)
  | _, _, _, _, _, .one hk hv, hroom, htrailing => by
    intro n pos fields ts rest hts hn
    rw [List.cons_append, List.cons_append] at hts
    obtain ⟨key, us, rfl, hkey, hus⟩ := List.map_eq_cons_iff.1 hts
    obtain ⟨colon, us, rfl, hcolon, hus⟩ := List.map_eq_cons_iff.1 hus
    obtain ⟨a, b, rfl, ha, hb⟩ := List.map_eq_append_iff.1 hus
    simp only [List.length_cons, List.length_append] at hn
    obtain ⟨n, rfl⟩ : ∃ m, n = m + 1 := ⟨n - 1, by omega⟩
    have hbn : b.length ≤ n := by omega
    obtain ⟨t, c, rfl, hend⟩ := members_end htrailing hb hbn _ (lastStop colon.stop a)
    rw [List.cons_append, List.cons_append, List.append_assoc, List.cons_append,
      members_step (hv.reads e hroom) ha (by omega) (hkey ▸ hk) hcolon, hend]
    simp only [lastStop, lastStop_append]
    rfl
  | _, _, _, _, _, .more hk hv h, hroom, htrailing => by
    intro n pos fields ts rest hts hn
    rw [List.cons_append, List.cons_append, List.append_assoc, List.cons_append] at hts
    obtain ⟨key, us, rfl, hkey, hus⟩ := List.map_eq_cons_iff.1 hts
    obtain ⟨colon, us, rfl, hcolon, hus⟩ := List.map_eq_cons_iff.1 hus
    obtain ⟨a, comma, b, rfl, ha, hcomma, hb⟩ := exists_split hus
    simp only [List.length_cons, List.length_append] at hn
    obtain ⟨n, rfl⟩ : ∃ m, n = m + 1 := ⟨n - 1, by omega⟩
    rw [List.cons_append, List.cons_append, List.append_assoc, List.cons_append,
      members_step (hv.reads e hroom) ha (by omega) (hkey ▸ hk) hcolon, hcomma]
    dsimp only
    rw [lookAhead_eq_self e (append_ne_nil_of_lexemes hb rest),
      h.reads e hroom htrailing n comma.stop _ b rest hb (by omega)]
    simp only [lastStop, lastStop_append]
    rfl

theorem AreItems.reads (e : Ending) : ∀ {room depth : Nat} {ls trailing : List Lexeme}
    {items : List Value}, AreItems room ls items → depth + room = maxDepth →
    IsTrailing trailing → ∀ (n pos : Nat) (done : List Value) (ts rest : List Token),
    ts.map Token.lexeme = ls ++ (trailing ++ [.closeBracket]) → ts.length ≤ n →
    Literal.items e n depth done ⟨pos, ts ++ rest⟩ =
      .ok (.array (done ++ items), ⟨lastStop pos ts, rest⟩)
  | _, _, _, _, _, .one hv, hroom, htrailing => by
    intro n pos done ts rest hts hn
    obtain ⟨a, b, rfl, ha, hb⟩ := List.map_eq_append_iff.1 hts
    obtain ⟨l, ms, hls, -⟩ := hv.ne_nil
    have hlength : 0 < a.length := by
      rw [← List.length_map Token.lexeme, ha, hls]
      exact Nat.succ_pos _
    rw [List.length_append] at hn
    obtain ⟨n, rfl⟩ : ∃ m, n = m + 1 := ⟨n - 1, by omega⟩
    have hbn : b.length ≤ n := by omega
    obtain ⟨t, c, rfl, hend⟩ := items_end htrailing hb hbn _ (lastStop pos a)
    rw [List.length_cons] at hn
    rw [List.append_assoc, List.cons_append, items_step hv (hv.reads e hroom) ha (by omega), hend]
    simp only [lastStop, lastStop_append]
  | _, _, _, _, _, .more hv h, hroom, htrailing => by
    intro n pos done ts rest hts hn
    rw [List.append_assoc, List.cons_append] at hts
    obtain ⟨a, comma, b, rfl, ha, hcomma, hb⟩ := exists_split hts
    simp only [List.length_cons, List.length_append] at hn
    obtain ⟨n, rfl⟩ : ∃ m, n = m + 1 := ⟨n - 1, by omega⟩
    rw [List.append_assoc, List.cons_append,
      items_step hv (hv.reads e hroom) ha (by omega), hcomma]
    dsimp only
    rw [lookAhead_eq_self e (append_ne_nil_of_lexemes hb rest),
      h.reads e hroom htrailing n comma.stop _ b rest hb (by omega), List.append_assoc,
      List.singleton_append, lastStop_append, lastStop]

end

/-- A text is read as a value exactly when it is scanned to its end without an error and the grammar
derives the value from its tokens, with at most `maxDepth` containers open at once. -/
theorem parse_eq_ok_iff (text : List Char) (v : Value) :
    parse text = .ok v ↔
      (scanAt text 0).ending = .ok (Text.bytes text) ∧
      IsValue maxDepth ((scanAt text 0).tokens.map Token.lexeme) v := by
  constructor
  · intro h
    obtain ⟨⟨w, u⟩, hw, h⟩ := bind_eq_ok.1 h
    obtain ⟨ts, htokens, -, hderived⟩ := value_sound _ _ (Nat.zero_add _) hw
    dsimp only at htokens h
    split at h
    · cases h
    · cases h
    · next hrest hending =>
      cases h
      rw [hrest, List.append_nil] at htokens
      refine ⟨?_, htokens ▸ hderived⟩
      rw [hending, scan_ending hending, Cursor.at, Text.dropBytes_zero, Nat.zero_add]
  · rintro ⟨hending, hderived⟩
    have hread := hderived.reads (scanAt text 0).ending (Nat.zero_add _)
      (2 * (scanAt text 0).tokens.length + 2) 0 (scanAt text 0).tokens [] rfl (by omega)
    rw [List.append_nil] at hread
    refine bind_eq_ok.2 ⟨_, hread, ?_⟩
    dsimp only
    rw [hending]

end ColumnMetadata.Literal
