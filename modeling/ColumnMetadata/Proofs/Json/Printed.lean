import ColumnMetadata.Json.Record
import ColumnMetadata.Proofs.Literal.Printed

/-!
# Reading printed values as JSON

What is printed is JSON. A layout of tokens is scanned as their lexemes (`scanFrom?_of_prints`), the
lexemes of a value are put together to the tree of the value (`tree?_lexemes`), and so the pretty
form of a value is read as its tree (`read?_pretty`). In the tree of a printed object a record finds
the fields that the object was printed with (`Tree.record?_ofValue`).
-/

namespace ColumnMetadata.Json

open Literal (Prints Stops)
open Value (escape escapeChar quote pretty)

/-! ## Strings -/

/-- A character that is not special stands for itself. -/
theorem stringBody?_plain {c : Char} (hquote : c ≠ '"') (hslash : c ≠ '\\') (hc : ¬c.toNat < 32)
    (cs : List Char) :
    stringBody? (c :: cs) = (stringBody? cs).bind fun b => some (.char c :: b.1, b.2) := by
  rw [stringBody?.eq_def]
  split
  case h_5 heq =>
    cases heq
    rw [if_neg (not_or.2 ⟨hslash, hc⟩)]
    rfl
  case h_1 heq => cases heq
  case h_2 heq =>
    cases heq
    exact absurd rfl hquote
  all_goals
    next heq =>
    cases heq
    exact absurd rfl hslash

/-- A printed character is one piece of a string, which is the character. -/
theorem exists_piece (c : Char) : ∃ p : Piece,
    (∀ cs, stringBody? (escapeChar c ++ cs) =
      (stringBody? cs).bind fun b => some (p :: b.1, b.2)) ∧
    ∀ ps, assemble? (p :: ps) = (assemble? ps).map (c :: ·) := by
  unfold escapeChar
  split
  case h_8 hquote hslash _ _ _ _ _ =>
    split
    · next hc =>
      obtain ⟨hunit, hhigh, hlow⟩ := Literal.unit?_control c.toNat hc
      refine ⟨.unit c.toNat, fun cs => ?_, fun ps => ?_⟩
      · simp only [List.cons_append, List.nil_append]
        rw [stringBody?, hunit]
        rfl
      · rw [assemble?.eq_def]
        simp [hhigh, hlow]
    · next hc => exact ⟨.char c, stringBody?_plain hquote hslash hc, fun _ => rfl⟩
  all_goals exact ⟨.char _, fun cs => rfl, fun ps => rfl⟩

/-- A printed string has the string's text. -/
theorem stringBody?_escape (s rest : List Char) :
    ∃ ps, stringBody? (escape s ++ '"' :: rest) = some (ps, rest) ∧ assemble? ps = some s := by
  induction s with
  | nil => exact ⟨[], rfl, rfl⟩
  | cons c s ih =>
    obtain ⟨ps, hbody, hps⟩ := ih
    obtain ⟨p, hpiece, hassemble⟩ := exists_piece c
    refine ⟨p :: ps, ?_, ?_⟩
    · rw [escape, List.append_assoc, hpiece, hbody, Option.bind_some]
    · rw [hassemble, hps, Option.map_some]

/-! ## Lexemes -/

/-- The lexeme of a token. Printed values have no words other than these, and no token that is no
lexeme. -/
def Lexeme.ofToken : Literal.Lexeme → Lexeme
  | .openBrace => .openBrace
  | .closeBrace => .closeBrace
  | .openBracket => .openBracket
  | .closeBracket => .closeBracket
  | .colon => .colon
  | .comma => .comma
  | .string s => .string (some s)
  | .number _ x => .number (some x)
  | .word "null" | .other _ => .null
  | .word w => .bool (w == "true")

theorem lexeme?_of_blank {c : Char} (h : isBlank c = true) (cs : List Char) :
    lexeme? (c :: cs) = none := by
  simp only [isBlank, Bool.or_eq_true, beq_iff_eq] at h
  rcases h with ((rfl | rfl) | rfl) | rfl
  all_goals rfl

theorem lexeme?_mark {c : Char} {l : Literal.Lexeme} (h : Literal.punctuation? c = some l)
    (cs : List Char) : lexeme? (c :: cs) = some (.ofToken l, cs) := by
  unfold Literal.punctuation? at h
  split at h <;> cases h
  all_goals rfl

theorem lexeme?_quote (s : String) (rest : List Char) :
    lexeme? (quote s ++ rest) = some (.string (some s), rest) := by
  obtain ⟨ps, hbody, hps⟩ := stringBody?_escape s.toList rest
  rw [quote, List.cons_append, List.append_assoc, List.singleton_append, lexeme?]
  simp [hbody, hps]

/-- What begins with a digit or a minus sign is scanned as a number. -/
theorem lexeme?_of_isDigit {c : Char} (hc : c.isDigit = true ∨ c = '-') (cs : List Char) :
    lexeme? (c :: cs) = (Number.parts? ((c :: cs).takeWhile isNumeric)).bind fun parts =>
      some (.number (Number.ofParts? parts), (c :: cs).dropWhile isNumeric) := by
  rw [lexeme?.eq_def]
  split
  case h_12 => rfl
  case h_1 heq => cases heq
  all_goals
    next heq =>
    cases heq
    exact absurd hc (by decide)

theorem isNumeric_of_stops {rest : List Char} (h : Stops rest) :
    ∀ c ∈ rest.head?, isNumeric c = false := by
  intro c hc
  by_contra hnumeric
  rw [Bool.not_eq_false] at hnumeric
  exact absurd (Literal.isBare_of_isNumeral hnumeric) (by rw [h c hc]; exact Bool.false_ne_true)

theorem lexeme?_number {x : Number} (hx : x.Legible) {rest : List Char} (hrest : Stops rest) :
    lexeme? (x.text ++ rest) = some (.number (some x.reread), rest) := by
  have hread := hx.read?_text
  obtain ⟨hnumerals, c, cs, htext, hc⟩ := Number.isNumeral_of_read? hread
  have hnumeric : ∀ d ∈ x.text, isNumeric d = true := hnumerals
  obtain ⟨parts, hparts, hvalue⟩ := Option.bind_eq_some_iff.1 hread
  have hend := isNumeric_of_stops hrest
  have hlexeme := lexeme?_of_isDigit hc (cs ++ rest)
  rw [← List.cons_append, ← htext, takeWhile_append_of_head hnumeric hend,
    dropWhile_append_of_head hnumeric hend, hparts, Option.bind_some, hvalue] at hlexeme
  exact hlexeme

theorem lexeme?_leaf {v : Value} (hv : v.lexemes = [v.leafLexeme])
    (hnumbers : ∀ x ∈ v.numbers, x.Legible) {rest : List Char} (hrest : Stops rest) :
    lexeme? (v.leaf ++ rest) = some (.ofToken v.leafLexeme, rest) := by
  cases v with
  | null => rfl
  | bool b => cases b <;> rfl
  | number x => exact lexeme?_number (hnumbers x List.mem_cons_self) hrest
  | string s => exact lexeme?_quote s rest
  | array vs => cases vs <;> simp [Value.lexemes] at hv
  | object fs => rcases fs with _ | ⟨⟨k, v⟩, fs⟩ <;> simp [Value.lexemes] at hv

/-! ## The whole scan -/

theorem scanFrom?_of_blank {c : Char} (h : isBlank c = true) (n : Nat) (cs : List Char) :
    scanFrom? n (c :: cs) = scanFrom? n cs := by
  rw [scanFrom?.eq_def, scanFrom?.eq_def n cs]
  dsimp only
  rw [List.dropWhile_cons_of_pos h]

theorem scanFrom?_of_lexeme? {cs rest : List Char} {l : Lexeme} (h : lexeme? cs = some (l, rest))
    (n : Nat) : scanFrom? (n + 1) cs = (scanFrom? n rest).map (l :: ·) := by
  cases cs with
  | nil => cases h
  | cons c cs =>
    have hblank : ¬isBlank c = true := by
      intro hblank
      rw [lexeme?_of_blank hblank] at h
      cases h
    rw [scanFrom?.eq_def]
    dsimp only
    rw [List.dropWhile_cons_of_neg hblank]
    dsimp only
    rw [h, Option.bind_eq_bind, Option.bind_some, Option.map_eq_bind]
    rfl

/-- A layout is scanned as the lexemes of its tokens, one step for each. -/
theorem scanFrom?_of_prints {rest cs : List Char} {ls : List Literal.Lexeme}
    (h : Prints rest cs ls) (n : Nat) : scanFrom? (ls.length + n) (cs ++ rest) =
      (scanFrom? n rest).map (ls.map .ofToken ++ ·) := by
  induction h with
  | nil => simp
  | @blank c cs ls hc _ ih =>
    have hblank : isBlank c = true := by rcases hc with rfl | rfl <;> rfl
    rw [List.cons_append, scanFrom?_of_blank hblank, ih]
  | @mark c l cs ls hl _ ih =>
    rw [List.length_cons, Nat.add_right_comm, List.cons_append,
      scanFrom?_of_lexeme? (lexeme?_mark hl _), ih, Option.map_map]
    rfl
  | @leaf v cs ls hv hnumbers hend _ ih =>
    rw [List.length_cons, Nat.add_right_comm, List.append_assoc,
      scanFrom?_of_lexeme? (lexeme?_leaf hv hnumbers hend), ih, Option.map_map]
    rfl

/-- No token of a layout is without characters. -/
theorem length_le_of_prints {rest cs : List Char} {ls : List Literal.Lexeme}
    (h : Prints rest cs ls) : ls.length ≤ cs.length := by
  induction h with
  | nil => exact Nat.le_refl 0
  | blank _ _ ih => exact Nat.le_succ_of_le ih
  | mark _ _ ih => exact Nat.succ_le_succ ih
  | @leaf v cs ls hv hnumbers _ _ ih =>
    have hleaf : v.leaf ≠ [] := by
      intro hnil
      have hlexeme : lexeme? (v.leaf ++ []) = _ := lexeme?_leaf hv hnumbers nofun
      rw [hnil] at hlexeme
      cases hlexeme
    have := List.length_pos_iff.2 hleaf
    simp only [List.length_cons, List.length_append]
    omega

theorem scan?_pretty {v : Value} (hv : ∀ x ∈ v.numbers, x.Legible) (level : Nat) :
    scan? (pretty level v) = some (v.lexemes.map .ofToken) := by
  have hprints := Literal.prints_pretty v level [] hv nofun
  have hscan := scanFrom?_of_prints hprints ((pretty level v).length - v.lexemes.length)
  have hend (n : Nat) : scanFrom? n [] = some [] := by cases n <;> rfl
  rw [Nat.add_sub_cancel' (length_le_of_prints hprints), List.append_nil, hend] at hscan
  rw [scan?, hscan, Option.map_some, List.append_nil]

/-! ## Trees -/

mutual

/-- The tree of a printed value. -/
def Tree.ofValue : Value → Tree
  | .null => .null
  | .bool b => .bool b
  | .number x => .number (some x.reread)
  | .string s => .string (some s)
  | .array vs => .array (ofItems vs)
  | .object fs => .object (ofFields fs)

def Tree.ofItems : List Value → List Tree
  | [] => []
  | v :: vs => ofValue v :: ofItems vs

def Tree.ofFields : List (String × Value) → List (Option String × Tree)
  | [] => []
  | (k, v) :: fs => (some k, ofValue v) :: ofFields fs

end

theorem Tree.ofItems_eq_map (vs : List Value) : ofItems vs = vs.map ofValue := by
  induction vs with
  | nil => rfl
  | cons v vs ih => rw [ofItems, ih, List.map_cons]

theorem Tree.ofFields_eq_map (fs : List (String × Value)) :
    ofFields fs = fs.map fun p => (some p.1, ofValue p.2) := by
  induction fs with
  | nil => rfl
  | cons p fs ih => rw [ofFields, ih, List.map_cons]

/-- An opening bracket in front of what does not begin with the closing one. -/
theorem tree?_openBracket {l : Lexeme} (hl : l ≠ .closeBracket) (n : Nat) (ls : List Lexeme) :
    tree? (n + 1) (.openBracket :: l :: ls) =
      (items? n (l :: ls)).bind fun r => some (.array r.1, r.2) := by
  rw [tree?]
  · rfl
  · rintro ls' ⟨⟩
    exact hl rfl

theorem tree?_openBrace (k : Option String) (n : Nat) (ls : List Lexeme) :
    tree? (n + 1) (.openBrace :: .string k :: ls) =
      (members? n (.string k :: ls)).bind fun r => some (.object r.1, r.2) := by
  rw [tree?]
  · rfl
  · rintro ls' ⟨⟩

/-- The lexemes of a value begin with one that closes nothing. -/
theorem exists_lexemes_cons (v : Value) :
    ∃ l ls, v.lexemes.map Lexeme.ofToken = l :: ls ∧ l ≠ .closeBracket := by
  match v with
  | .null | .number _ | .string _ => exact ⟨_, _, rfl, nofun⟩
  | .bool true | .bool false => exact ⟨_, _, rfl, nofun⟩
  | .array [] | .array (_ :: _) => exact ⟨_, _, rfl, nofun⟩
  | .object [] | .object (_ :: _) => exact ⟨_, _, rfl, nofun⟩

mutual

/-- The lexemes of a value are put together to its tree, if there is a step for each. -/
theorem tree?_lexemes : ∀ (v : Value) {n : Nat} (rest : List Lexeme), v.lexemes.length ≤ n →
    tree? n (v.lexemes.map .ofToken ++ rest) = some (.ofValue v, rest)
  | .null, n + 1, _, _ => rfl
  | .bool true, n + 1, _, _ => rfl
  | .bool false, n + 1, _, _ => rfl
  | .number _, n + 1, _, _ => rfl
  | .string _, n + 1, _, _ => rfl
  | .array [], n + 1, _, _ => rfl
  | .array (v :: vs), n + 1, rest, h => by
    have hitems := items?_lexemes v vs (n := n) rest (by simp [Value.lexemes] at h; omega)
    obtain ⟨l, ls, hls, hl⟩ := exists_lexemes_cons v
    simp only [List.map_append, hls, List.append_assoc, List.cons_append] at hitems
    simp only [Value.lexemes, List.map_cons, List.map_append, hls, Lexeme.ofToken, List.map_nil,
      List.append_assoc, List.cons_append, List.nil_append]
    rw [tree?_openBracket hl, hitems, Option.bind_some, Tree.ofValue]
  | .object [], n + 1, _, _ => rfl
  | .object ((k, v) :: fs), n + 1, rest, h => by
    have hmembers := members?_lexemes k v fs (n := n) rest (by simp [Value.lexemes] at h; omega)
    simp only [List.map_append, List.append_assoc] at hmembers
    simp only [Value.lexemes, List.map_cons, List.map_append, Lexeme.ofToken, List.map_nil,
      List.append_assoc, List.cons_append, List.nil_append]
    rw [tree?_openBrace, hmembers, Option.bind_some, Tree.ofValue]

theorem items?_lexemes : ∀ (v : Value) (vs : List Value) {n : Nat} (rest : List Lexeme),
    v.lexemes.length + (Value.itemLexemes vs).length < n →
      items? n ((v.lexemes ++ Value.itemLexemes vs).map .ofToken ++ .closeBracket :: rest) =
        some (Tree.ofItems (v :: vs), rest)
  | v, [], n + 1, rest, h => by
    have htree := tree?_lexemes v (n := n) (.closeBracket :: rest) (by omega)
    rw [items?, Value.itemLexemes, List.append_nil, htree]
    rfl
  | v, w :: vs, n + 1, rest, h => by
    simp only [Value.itemLexemes, List.length_cons, List.length_append] at h
    have htree := tree?_lexemes v (n := n) (.comma ::
      ((w.lexemes ++ Value.itemLexemes vs).map .ofToken ++ .closeBracket :: rest)) (by omega)
    have hitems := items?_lexemes w vs (n := n) rest (by omega)
    rw [items?, Value.itemLexemes, List.map_append, List.append_assoc]
    simp only [List.map_cons, Lexeme.ofToken, List.cons_append]
    rw [htree, Option.bind_eq_bind, Option.bind_some]
    dsimp only
    rw [hitems]
    rfl

theorem members?_lexemes : ∀ (k : String) (v : Value) (fs : List (String × Value)) {n : Nat}
    (rest : List Lexeme), v.lexemes.length + (Value.fieldLexemes fs).length < n →
      members? n (.string (some k) :: .colon ::
        ((v.lexemes ++ Value.fieldLexemes fs).map .ofToken ++ .closeBrace :: rest)) =
        some (Tree.ofFields ((k, v) :: fs), rest)
  | k, v, [], n + 1, rest, h => by
    have htree := tree?_lexemes v (n := n) (.closeBrace :: rest) (by omega)
    rw [members?, Value.fieldLexemes, List.append_nil, htree]
    rfl
  | k, v, (k', w) :: fs, n + 1, rest, h => by
    simp only [Value.fieldLexemes, List.length_cons, List.length_append] at h
    have htree := tree?_lexemes v (n := n) (.comma :: .string (some k') :: .colon ::
      ((w.lexemes ++ Value.fieldLexemes fs).map .ofToken ++ .closeBrace :: rest)) (by omega)
    have hmembers := members?_lexemes k' w fs (n := n) rest (by omega)
    rw [members?, Value.fieldLexemes, List.map_append, List.append_assoc]
    simp only [List.map_cons, Lexeme.ofToken, List.cons_append]
    rw [htree, Option.bind_eq_bind, Option.bind_some]
    dsimp only
    rw [hmembers]
    rfl

end

/-- The pretty form of a value is read as the tree of the value. -/
theorem read?_pretty {v : Value} (hv : ∀ x ∈ v.numbers, x.Legible) (level : Nat) :
    read? (pretty level v) = some (.ofValue v) := by
  have htree := tree?_lexemes v (n := 2 * v.lexemes.length + 2) [] (by omega)
  rw [List.append_nil] at htree
  rw [read?, scan?_pretty hv, Option.bind_eq_bind, Option.bind_some, List.length_map, htree]

/-! ## Records -/

namespace Tree

/-- What a printed object says about the field of a name. -/
def slot (fs : List (String × Value)) (name : String) : Slot :=
  match Entries.find? name fs with
  | some v => .given (.ofValue v)
  | none => .omitted

/-- The members of a printed object that have a name. -/
theorem filter_ofFields {fs : List (String × Value)} (hfs : Entries.Distinct fs) (name : String) :
    (ofFields fs).filter (fun m => m.1.any fun k => [name].contains k) =
      ((Entries.find? name fs).map fun v => (some name, ofValue v)).toList := by
  induction fs with
  | nil => rfl
  | cons p fs ih =>
    obtain ⟨k, v⟩ := p
    obtain ⟨hk, hfs⟩ := List.nodup_cons.1 hfs
    rw [ofFields, Entries.find?]
    by_cases hname : k = name
    · subst hname
      rw [List.filter_cons_of_pos (by simp), ih hfs, Entries.find?_eq_none.2 hk, if_pos rfl]
      rfl
    · rw [List.filter_cons_of_neg (by simp [hname]), ih hfs, if_neg hname]

theorem member?_ofFields {fs : List (String × Value)} (hfs : Entries.Distinct fs) (name : String) :
    member? [name] (ofFields fs) = some (slot fs name) := by
  rw [member?, filter_ofFields hfs, slot]
  cases Entries.find? name fs <;> rfl

/-- A printed object has the fields that it was printed with. -/
theorem record?_ofValue {fs : List (String × Value)} (hfs : Entries.Distinct fs)
    (names : List String) : record? (names.map fun name => [name]) (ofValue (.object fs)) =
      some (names.map (slot fs)) := by
  have hnamed : ((ofFields fs).all fun m => m.1.isSome) = true := by
    simp [ofFields_eq_map]
  have hmembers : (names.map fun name => [name]).mapM (fun names => member? names (ofFields fs)) =
      some (names.map (slot fs)) := by
    induction names with
    | nil => rfl
    | cons name names ih => simp [member?_ofFields hfs, ih]
  rw [ofValue, record?, if_pos hnamed, hmembers]

/-- A printed list has the items that it was printed with, if each of them is read. -/
theorem list?_ofValue {α : Type} {read : Tree → Option α} {print : α → Value} {l : List α}
    (h : ∀ a ∈ l, read (ofValue (print a)) = some a) :
    list? read (ofValue (.array (l.map print))) = some l := by
  rw [ofValue, ofItems_eq_map, list?]
  induction l with
  | nil => rfl
  | cons a l ih =>
    obtain ⟨ha, hl⟩ := List.forall_mem_cons.1 h
    rw [List.map_cons, List.map_cons, List.mapM_cons, ha, ih hl]
    rfl

/-- A printed number below the reader's bound. -/
theorem natural?_ofValue {n bound : Nat} (hn : n < bound) (hbound : bound ≤ UInt64.size) :
    natural? bound (ofValue (.number (.integer n))) = some n := by
  have hinteger := Number.isInteger_natCast (Nat.lt_of_lt_of_le hn hbound)
  rw [ofValue, hinteger.rereads.reread_eq, natural?, if_pos (by omega), Int.toNat_natCast]

end Tree

end ColumnMetadata.Json
