import ColumnMetadata.Json.Tree
import ColumnMetadata.Proofs.Json.Scanning
import ColumnMetadata.Proofs.Literal.Grammar
import Mathlib.Data.List.Forall2

/-!
# JSON texts as literals

The lexemes of a JSON tree that has a value keep words and numbers apart, and the tokens that match
them are derived as that value by the grammar of object literals, with as much room for containers
(`yields_tree`). JSON leaves less room than literals do. So whatever is read from JSON as a
free-form value is read as the same value by the reader of literals (`parse_of_value?`).
-/

namespace ColumnMetadata.Json

open Literal (IsValue AreItems AreMembers)

/-! ## Lexemes apart -/

theorem Spaced.cons {l : Lexeme} {ls : List Lexeme} (hl : l.isRun = false) (h : Spaced ls) :
    Spaced (l :: ls) :=
  List.isChain_cons.2 ⟨fun _ _ => by rw [hl, Bool.false_and], h⟩

theorem Spaced.append_cons {l : Lexeme} {ls ms : List Lexeme} (hls : Spaced ls)
    (hl : l.isRun = false) (hms : Spaced ms) : Spaced (ls ++ l :: ms) := by
  refine List.isChain_append.2 ⟨hls, hms.cons hl, fun _ _ m hm => ?_⟩
  cases hm
  rw [hl, Bool.and_false]

/-- A lexeme that has one token whatever comes next: a punctuation mark or a string. -/
structure Marks (l : Lexeme) (lit : Literal.Lexeme) : Prop where
  isRun : l.isRun = false
  isSound : l.isSound = true
  eq_of_matches : ∀ lit', l.Matches lit' → lit' = lit

theorem marks_comma : Marks .comma .comma := ⟨rfl, rfl, fun _ h => by cases h; rfl⟩

theorem marks_colon : Marks .colon .colon := ⟨rfl, rfl, fun _ h => by cases h; rfl⟩

theorem marks_openBrace : Marks .openBrace .openBrace := ⟨rfl, rfl, fun _ h => by cases h; rfl⟩

theorem marks_closeBrace : Marks .closeBrace .closeBrace := ⟨rfl, rfl, fun _ h => by cases h; rfl⟩

theorem marks_openBracket : Marks .openBracket .openBracket :=
  ⟨rfl, rfl, fun _ h => by cases h; rfl⟩

theorem marks_closeBracket : Marks .closeBracket .closeBracket :=
  ⟨rfl, rfl, fun _ h => by cases h; rfl⟩

theorem marks_string (s : String) : Marks (.string (some s)) (.string s) :=
  ⟨rfl, rfl, fun _ h => by cases h; rfl⟩

/-- Lexemes with values, words and numbers apart, whose tokens are of some kind. -/
structure Yields (P : List Literal.Lexeme → Prop) (ls : List Lexeme) : Prop where
  isSound : ∀ l ∈ ls, l.isSound = true
  spaced : Spaced ls
  tokens : ∀ lits, List.Forall₂ Lexeme.Matches ls lits → P lits

section Yields

variable {P Q R : List Literal.Lexeme → Prop} {l : Lexeme} {lit : Literal.Lexeme}
  {ls ms : List Lexeme}

theorem Yields.nil (h : P []) : Yields P [] where
  isSound := nofun
  spaced := .nil
  tokens := by
    rintro _ ⟨⟩
    exact h

theorem Yields.single (hl : l.isSound = true) (h : ∀ lit, l.Matches lit → P [lit]) :
    Yields P [l] where
  isSound := List.forall_mem_singleton.2 hl
  spaced := .singleton l
  tokens := by
    rintro _ (_ | ⟨hlit, ⟨⟩⟩)
    exact h _ hlit

theorem Yields.cons (hl : Marks l lit) (h : Yields P ls) (hP : ∀ lits, P lits → R (lit :: lits)) :
    Yields R (l :: ls) where
  isSound := List.forall_mem_cons.2 ⟨hl.isSound, h.isSound⟩
  spaced := h.spaced.cons hl.isRun
  tokens := by
    rintro _ (_ | ⟨hlit, hlits⟩)
    obtain rfl := hl.eq_of_matches _ hlit
    exact hP _ (h.tokens _ hlits)

theorem Yields.append_cons (h : Yields P ls) (hl : Marks l lit) (h' : Yields Q ms)
    (hPQ : ∀ lits lits', P lits → Q lits' → R (lits ++ lit :: lits')) :
    Yields R (ls ++ l :: ms) where
  isSound := List.forall_mem_append.2
    ⟨h.isSound, List.forall_mem_cons.2 ⟨hl.isSound, h'.isSound⟩⟩
  spaced := h.spaced.append_cons hl.isRun h'.spaced
  tokens lits hlits := by
    have hfront := List.forall₂_take ls.length hlits
    have hback := List.forall₂_drop ls.length hlits
    rw [List.take_left] at hfront
    rw [List.drop_left] at hback
    obtain ⟨lit', lits', hlit, hrest, hdrop⟩ := List.forall₂_cons_left_iff.1 hback
    rw [← List.take_append_drop ls.length lits, hdrop, hl.eq_of_matches _ hlit]
    exact hPQ _ _ (h.tokens _ hfront) (h'.tokens _ hrest)

/-- What stands between two marks. -/
theorem Yields.between {l' : Lexeme} {lit' : Literal.Lexeme} (hl : Marks l lit) (h : Yields P ls)
    (hl' : Marks l' lit') (hP : ∀ lits, P lits → R (lit :: (lits ++ [lit']))) :
    Yields R (l :: (ls ++ [l'])) := by
  have hclosed : Yields (fun lits => R (lit :: lits)) (ls ++ [l']) :=
    h.append_cons hl' (.nil rfl) (Q := fun lits => lits = []) fun lits _ hlits hnil =>
      hnil ▸ hP lits hlits
  exact .cons hl hclosed fun _ hlits => hlits

end Yields

/-! ## Trees -/

section Trees

variable {extra room : Nat}

theorem yields_null : Yields (fun lits => IsValue room lits .null) [.null] :=
  .single rfl fun _ h => by cases h; exact .null

theorem yields_bool (b : Bool) : Yields (fun lits => IsValue room lits (.bool b)) [.bool b] :=
  .single rfl fun _ h => by cases h <;> constructor

theorem yields_number (x : Number) :
    Yields (fun lits => IsValue room lits (.number x)) [.number (some x)] :=
  .single rfl fun _ h => by cases h; exact .number _ x

theorem yields_string (s : String) :
    Yields (fun lits => IsValue room lits (.string s)) [.string (some s)] :=
  .single rfl fun _ h => by cases h; exact .string s

theorem yields_emptyArray :
    Yields (fun lits => IsValue (room + 1) lits (.array [])) [.openBracket, .closeBracket] :=
  .between marks_openBracket (.nil rfl) marks_closeBracket (P := fun lits => lits = [])
    fun _ h => by rw [h]; exact .emptyArray

theorem yields_array {ls : List Lexeme} {vs : List Value}
    (h : Yields (fun lits => AreItems room lits vs) ls) :
    Yields (fun lits => IsValue (room + 1) lits (.array vs))
      (.openBracket :: (ls ++ [.closeBracket])) := by
  refine .between marks_openBracket h marks_closeBracket fun lits hlits => ?_
  have hvalue := IsValue.array hlits .nothing
  rwa [List.append_nil] at hvalue

theorem yields_emptyObject :
    Yields (fun lits => IsValue (room + 1) lits (.object [])) [.openBrace, .closeBrace] :=
  .between marks_openBrace (.nil rfl) marks_closeBrace (P := fun lits => lits = [])
    fun _ h => by rw [h]; exact .emptyObject

theorem yields_object {ls : List Lexeme} {ps : List (String × Value)}
    (h : Yields (fun lits => AreMembers room lits ps) ls) :
    Yields (fun lits => IsValue (room + 1) lits (.object (Entries.ofPairs ps)))
      (.openBrace :: (ls ++ [.closeBrace])) := by
  refine .between marks_openBrace h marks_closeBrace fun lits hlits => ?_
  have hvalue := IsValue.object hlits .nothing (Entries.collects_ofPairs ps)
  rwa [List.append_nil] at hvalue

/-- A member of an object, with what follows its key. -/
theorem yields_member (k : String) {ls : List Lexeme} {P R : List Literal.Lexeme → Prop}
    (h : Yields P ls) (hP : ∀ lits, P lits → R (.string k :: .colon :: lits)) :
    Yields R (.string (some k) :: .colon :: ls) := by
  have hcolon : Yields (fun lits => R (.string k :: lits)) (.colon :: ls) :=
    .cons marks_colon h hP
  exact .cons (marks_string k) hcolon fun _ hlits => hlits

/-- An array that is a value has room for its items. -/
theorem exists_items {ts : List Tree} {v : Value} (h : (Tree.array ts).toValue? room = some v) :
    ∃ r, room = r + 1 ∧ ∃ vs, Tree.toItems? r ts = some vs ∧ .array vs = v := by
  cases room with
  | zero => cases h
  | succ r => exact ⟨r, rfl, Option.map_eq_some_iff.1 h⟩

theorem exists_pairs {ms : List (Option String × Tree)} {v : Value}
    (h : (Tree.object ms).toValue? room = some v) :
    ∃ r, room = r + 1 ∧ ∃ ps, Tree.toPairs? r ms = some ps ∧ .object (Entries.ofPairs ps) = v := by
  cases room with
  | zero => cases h
  | succ r => exact ⟨r, rfl, Option.map_eq_some_iff.1 h⟩

theorem toItems?_cons {t : Tree} {ts : List Tree} {vs : List Value}
    (h : Tree.toItems? room (t :: ts) = some vs) : ∃ w ws, t.toValue? room = some w ∧
      Tree.toItems? room ts = some ws ∧ vs = w :: ws := by
  rw [Tree.toItems?] at h
  obtain ⟨w, hw, h⟩ := Option.bind_eq_some_iff.1 h
  obtain ⟨ws, hws, h⟩ := Option.bind_eq_some_iff.1 h
  cases h
  exact ⟨w, ws, hw, hws, rfl⟩

theorem toPairs?_cons {k : Option String} {t : Tree} {ms : List (Option String × Tree)}
    {ps : List (String × Value)} (h : Tree.toPairs? room ((k, t) :: ms) = some ps) :
    ∃ key w qs, k = some key ∧ t.toValue? room = some w ∧ Tree.toPairs? room ms = some qs ∧
      ps = (key, w) :: qs := by
  rw [Tree.toPairs?] at h
  obtain ⟨key, hkey, h⟩ := Option.bind_eq_some_iff.1 h
  obtain ⟨w, hw, h⟩ := Option.bind_eq_some_iff.1 h
  obtain ⟨qs, hqs, h⟩ := Option.bind_eq_some_iff.1 h
  cases h
  exact ⟨key, w, qs, hkey, hw, hqs, rfl⟩

mutual

/-- The lexemes of a tree that is a value yield the value, also when there is extra room. -/
theorem yields_tree (extra : Nat) : ∀ {n : Nat} {ls rest : List Lexeme} {t : Tree},
    tree? n ls = some (t, rest) → ∀ {room : Nat} {v : Value}, t.toValue? room = some v →
      ∃ front, ls = front ++ rest ∧ Yields (fun lits => IsValue (room + extra) lits v) front
  | 0, ls, rest, t, h, room, v, hv => by
    rw [tree?] at h
    cases h
  | n + 1, ls, rest, t, h, room, v, hv => by
    unfold tree? at h
    split at h
    case h_1 => cases h
    case h_2 ls =>
      cases h
      cases hv
      exact ⟨[.null], rfl, yields_null⟩
    case h_3 b ls _ =>
      cases h
      cases hv
      exact ⟨[.bool b], rfl, yields_bool b⟩
    case h_4 x ls _ =>
      cases h
      obtain ⟨x, rfl, rfl⟩ := Option.map_eq_some_iff.1 hv
      exact ⟨[.number (some x)], rfl, yields_number x⟩
    case h_5 s ls _ =>
      cases h
      obtain ⟨s, rfl, rfl⟩ := Option.map_eq_some_iff.1 hv
      exact ⟨[.string (some s)], rfl, yields_string s⟩
    case h_6 ls _ =>
      cases h
      obtain ⟨room, rfl, vs, hvs, rfl⟩ := exists_items hv
      cases hvs
      rw [Nat.add_right_comm]
      exact ⟨[.openBracket, .closeBracket], rfl, yields_emptyArray⟩
    case h_7 ls _ hn =>
      cases hn
      obtain ⟨⟨ts, rest'⟩, hts, h⟩ := Option.bind_eq_some_iff.1 h
      cases h
      obtain ⟨room, rfl, vs, hvs, rfl⟩ := exists_items hv
      obtain ⟨front, rfl, hfront⟩ := yields_items extra hts hvs
      rw [Nat.add_right_comm]
      exact ⟨_, by simp, yields_array hfront⟩
    case h_8 ls _ =>
      cases h
      obtain ⟨room, rfl, ps, hps, rfl⟩ := exists_pairs hv
      cases hps
      rw [Nat.add_right_comm]
      exact ⟨[.openBrace, .closeBrace], rfl, yields_emptyObject⟩
    case h_9 ls _ hn =>
      cases hn
      obtain ⟨⟨ms, rest'⟩, hms, h⟩ := Option.bind_eq_some_iff.1 h
      cases h
      obtain ⟨room, rfl, ps, hps, rfl⟩ := exists_pairs hv
      obtain ⟨front, rfl, hfront⟩ := yields_members extra hms hps
      rw [Nat.add_right_comm]
      exact ⟨_, by simp, yields_object hfront⟩
    case h_10 => cases h

theorem yields_items (extra : Nat) : ∀ {n : Nat} {ls rest : List Lexeme} {ts : List Tree},
    items? n ls = some (ts, rest) → ∀ {room : Nat} {vs : List Value},
      Tree.toItems? room ts = some vs → ∃ front, ls = front ++ .closeBracket :: rest ∧
        Yields (fun lits => AreItems (room + extra) lits vs) front
  | 0, ls, rest, ts, h, room, vs, hvs => by
    rw [items?] at h
    cases h
  | n + 1, ls, rest, ts, h, room, vs, hvs => by
    rw [items?] at h
    obtain ⟨⟨t, ls'⟩, ht, h⟩ := Option.bind_eq_some_iff.1 h
    dsimp only at h
    split at h
    · obtain ⟨⟨ts', rest'⟩, hts, h⟩ := Option.bind_eq_some_iff.1 h
      cases h
      obtain ⟨w, ws, hw, hws, rfl⟩ := toItems?_cons hvs
      obtain ⟨front, rfl, hfront⟩ := yields_tree extra ht hw
      obtain ⟨more, rfl, hmore⟩ := yields_items extra hts hws
      refine ⟨front ++ .comma :: more, by simp, ?_⟩
      exact hfront.append_cons marks_comma hmore fun _ _ hlits hlits' => .more hlits hlits'
    · cases h
      obtain ⟨w, ws, hw, hws, rfl⟩ := toItems?_cons hvs
      cases hws
      obtain ⟨front, rfl, hfront⟩ := yields_tree extra ht hw
      exact ⟨front, rfl, hfront.isSound, hfront.spaced, fun _ h => .one (hfront.tokens _ h)⟩
    · cases h

theorem yields_members (extra : Nat) : ∀ {n : Nat} {ls rest : List Lexeme}
    {ms : List (Option String × Tree)}, members? n ls = some (ms, rest) →
      ∀ {room : Nat} {ps : List (String × Value)}, Tree.toPairs? room ms = some ps →
        ∃ front, ls = front ++ .closeBrace :: rest ∧
          Yields (fun lits => AreMembers (room + extra) lits ps) front
  | 0, ls, rest, ms, h, room, ps, hps => by
    have hnone : members? 0 ls = none := rfl
    rw [hnone] at h
    cases h
  | n + 1, ls, rest, ms, h, room, ps, hps => by
    unfold members? at h
    split at h
    · next k ls' hn =>
      cases hn
      obtain ⟨⟨t, ls''⟩, ht, h⟩ := Option.bind_eq_some_iff.1 h
      dsimp only at h
      split at h
      · obtain ⟨⟨ms', rest'⟩, hms, h⟩ := Option.bind_eq_some_iff.1 h
        cases h
        obtain ⟨key, w, qs, rfl, hw, hqs, rfl⟩ := toPairs?_cons hps
        obtain ⟨front, rfl, hfront⟩ := yields_tree extra ht hw
        obtain ⟨more, rfl, hmore⟩ := yields_members extra hms hqs
        refine ⟨.string (some key) :: .colon :: (front ++ .comma :: more), by simp, ?_⟩
        have hboth : Yields (fun lits => AreMembers (room + extra) (.string key :: .colon :: lits)
            ((key, w) :: qs)) (front ++ .comma :: more) :=
          hfront.append_cons marks_comma hmore fun _ _ hlits hlits' =>
            .more (.string key) hlits hlits'
        exact yields_member key hboth fun _ hlits => hlits
      · cases h
        obtain ⟨key, w, qs, rfl, hw, hqs, rfl⟩ := toPairs?_cons hps
        cases hqs
        obtain ⟨front, rfl, hfront⟩ := yields_tree extra ht hw
        refine ⟨.string (some key) :: .colon :: front, rfl, ?_⟩
        exact yields_member key hfront fun _ hlits => .one (.string key) hlits
      · cases h
    · cases h

end

end Trees

/-! ## Whole texts -/

/-- A text whose lexemes yield a value is read as it by the reader of literals. -/
theorem parse_of_yields {cs : List Char} {ls : List Lexeme} {v : Value}
    (h : scan? cs = some ls)
    (hyields : Yields (fun lits => IsValue Literal.maxDepth lits v) ls) :
    Literal.parse cs = .ok v := by
  obtain ⟨lits, hlits, hscanned⟩ := scannedAs_of_scanFrom? h hyields.isSound hyields.spaced
  obtain ⟨ts, hts, hscan⟩ := hscanned 0
  rw [List.append_nil, Nat.zero_add] at hscan
  have hend : Literal.scan ⟨Text.bytes cs, []⟩ = ⟨[], .ok (Text.bytes cs)⟩ := by
    rw [Literal.scan_eq, Literal.next?, Literal.skip.eq_def]
    rfl
  have htokens : Literal.scanAt cs 0 = ⟨ts, .ok (Text.bytes cs)⟩ := by
    rw [Literal.scanAt, Literal.Cursor.at, Text.dropBytes_zero, hscan, hend, Literal.Scan.prepend,
      List.append_nil]
  refine (Literal.parse_eq_ok_iff cs v).2 ?_
  rw [htokens]
  exact ⟨rfl, hts ▸ hyields.tokens lits hlits⟩

/-- What is read from JSON as a free-form value, the reader of literals reads as the same value. -/
theorem parse_of_value? {cs : List Char} {v : Value} (h : value? cs = some v) :
    Literal.parse cs = .ok v := by
  obtain ⟨t, ht, hv⟩ := Option.bind_eq_some_iff.1 h
  obtain ⟨ls, hls, ht⟩ := Option.bind_eq_some_iff.1 ht
  split at ht
  · next t' htree =>
    cases ht
    obtain ⟨front, hfront, hyields⟩ := yields_tree 1 htree hv
    rw [List.append_nil] at hfront
    exact parse_of_yields hls (hfront ▸ hyields)
  · cases ht

/-- A JSON text with escapes, a pair of surrogates, a repeated key and a number with a fraction. -/
def sampleText : List Char :=
  ("\x7b\"a\" : \"\\t\",\t\"n\":[1, -2.5E0,true,\r\n null] , " ++
    "\"\\u0041\\ud83d\\uDE00\\/'\": \x7b\x7d, \"a\": [false]\x7d").toList

def sampleValue : Value :=
  .object [("a", .array [.bool false]),
    ("n", .array [.number (.integer 1), .number (.float ⟨true, 5629499534213120, -51⟩), .bool true,
      .null]),
    ("A😀/'", .object [])]

theorem parse_of_value?_sample :
    value? sampleText = some sampleValue ∧ Literal.parse sampleText = .ok sampleValue := by
  have hread : value? sampleText = some sampleValue := by decide +kernel
  exact ⟨hread, parse_of_value? hread⟩

end ColumnMetadata.Json
