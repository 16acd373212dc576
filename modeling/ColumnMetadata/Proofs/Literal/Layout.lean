import ColumnMetadata.Literal.Scan
import ColumnMetadata.Proofs.Value.Shape
import ColumnMetadata.Value.Printer

/-!
# The layout of printed values

The tokens of a printed value. `Value.lexemes` says what they are without regard to the layout, and
`Prints` says how a text is laid out: leaves and punctuation marks, spaces and line breaks between
them, and each word and number ending where it is printed to end. The pretty form of a value is a
layout of its tokens (`prints_pretty`), so a scanner reads it as them if it reads the parts that a
layout is made of. A number counts for the one that its text is read as (`Number.reread`), as long
as it is read at all (`Number.Legible`).
-/

namespace ColumnMetadata

/-! ## The tokens of a value -/

namespace Value

open Literal (Lexeme)

/-- The token of a printed leaf. -/
def leafLexeme : Value → Lexeme
  | null => .word "null"
  | bool b => .word (if b then "true" else "false")
  | number x => .number (String.ofList x.text) x.reread
  | string s => .string s
  | array _ => .openBracket
  | object _ => .openBrace

mutual

/-- The tokens of a value. -/
def lexemes : Value → List Lexeme
  | array [] => [.openBracket, .closeBracket]
  | array (v :: vs) => .openBracket :: (lexemes v ++ itemLexemes vs ++ [.closeBracket])
  | object [] => [.openBrace, .closeBrace]
  | object ((k, v) :: fs) =>
    .openBrace :: .string k :: .colon :: (lexemes v ++ fieldLexemes fs ++ [.closeBrace])
  | v => [leafLexeme v]

/-- The tokens of items behind the first. -/
def itemLexemes : List Value → List Lexeme
  | [] => []
  | v :: vs => .comma :: (lexemes v ++ itemLexemes vs)

/-- The tokens of fields behind the first. -/
def fieldLexemes : List (String × Value) → List Lexeme
  | [] => []
  | (k, v) :: fs => .comma :: .string k :: .colon :: (lexemes v ++ fieldLexemes fs)

end

end Value

namespace Literal

open Value (quote newline pretty prettyItems prettyFields)

/-! ## Layouts -/

/-- The rest of a text does not go on with a character of words and numbers. -/
def Stops (rest : List Char) : Prop := ∀ c ∈ rest.head?, isBare c = false

theorem stops_cons {c : Char} {cs : List Char} (h : isBare c = false) : Stops (c :: cs) := by
  intro d hd
  cases hd
  exact h

/-- A text in front of another one is a layout of tokens. -/
inductive Prints (rest : List Char) : List Char → List Lexeme → Prop
  | nil : Prints rest [] []
  /-- A space or a line break counts for nothing. -/
  | blank {c : Char} {cs : List Char} {ls : List Lexeme} (hc : c = ' ' ∨ c = '\n')
      (h : Prints rest cs ls) : Prints rest (c :: cs) ls
  | mark {c : Char} {l : Lexeme} {cs : List Char} {ls : List Lexeme}
      (hl : punctuation? c = some l) (h : Prints rest cs ls) : Prints rest (c :: cs) (l :: ls)
  /-- A leaf ends before another character of words and numbers. -/
  | leaf {v : Value} {cs : List Char} {ls : List Lexeme} (hv : v.lexemes = [v.leafLexeme])
      (hnumbers : ∀ x ∈ v.numbers, x.Legible) (hend : Stops (cs ++ rest))
      (h : Prints rest cs ls) : Prints rest (v.leaf ++ cs) (v.leafLexeme :: ls)

/-- One layout behind another gives its tokens behind those of the other. -/
theorem Prints.append {rest a b : List Char} {l m : List Lexeme} (ha : Prints (b ++ rest) a l)
    (hb : Prints rest b m) : Prints rest (a ++ b) (l ++ m) := by
  induction ha with
  | nil => exact hb
  | blank hc _ ih => exact .blank hc ih
  | mark hl _ ih => exact .mark hl ih
  | leaf hv hnumbers hend _ ih =>
    rw [List.append_assoc, List.cons_append]
    rw [← List.append_assoc] at hend
    exact .leaf hv hnumbers hend ih

theorem prints_mark {c : Char} {l : Lexeme} (h : punctuation? c = some l) (rest : List Char) :
    Prints rest [c] [l] :=
  .mark h .nil

/-- The line break and the indentation in front of a layout. -/
theorem Prints.newline {rest cs : List Char} {ls : List Lexeme} (h : Prints rest cs ls)
    (level : Nat) : Prints rest (newline level ++ cs) ls := by
  refine .blank (.inr rfl) ?_
  induction 2 * level with
  | zero => exact h
  | succ n ih => exact .blank (.inl rfl) ih

theorem prints_newline (level : Nat) (rest : List Char) : Prints rest (newline level) [] := by
  rw [← List.append_nil (Value.newline level)]
  exact Prints.nil.newline level

theorem prints_leaf {v : Value} (hv : v.lexemes = [v.leafLexeme])
    (hnumbers : ∀ x ∈ v.numbers, x.Legible) {rest : List Char} (hrest : Stops rest) :
    Prints rest v.leaf v.lexemes := by
  rw [hv, ← List.append_nil v.leaf]
  exact .leaf hv hnumbers hrest .nil

/-- A key, its colon and the space behind it, in front of a layout. -/
theorem Prints.key {rest cs : List Char} {ls : List Lexeme} (h : Prints rest cs ls) (k : String) :
    Prints rest (quote k ++ [':', ' '] ++ cs) (.string k :: .colon :: ls) := by
  rw [List.append_assoc]
  exact .leaf (v := .string k) rfl nofun (stops_cons (by decide)) (.mark rfl (.blank (.inl rfl) h))

/-! ## The pretty form -/

theorem stops_newline (level : Nat) (rest : List Char) : Stops (newline level ++ rest) :=
  stops_cons (by decide)

/-- What follows an item of a container: a comma or a line break. -/
theorem stops_prettyItems (level : Nat) (vs : List Value) {rest : List Char} (h : Stops rest) :
    Stops (prettyItems level vs ++ rest) := by
  cases vs with
  | nil => exact h
  | cons v vs => exact stops_cons (by decide)

theorem stops_prettyFields (level : Nat) (fs : List (String × Value)) {rest : List Char}
    (h : Stops rest) : Stops (prettyFields level fs ++ rest) := by
  cases fs with
  | nil => exact h
  | cons f fs => exact stops_cons (by decide)

/-- The text of an array's items, from the bracket to the line of the closing one. -/
def itemsOpen (level : Nat) (v : Value) (vs : List Value) : List Char :=
  ['['] ++ (newline (level + 1) ++ (pretty (level + 1) v ++
    (prettyItems (level + 1) vs ++ newline level)))

/-- The text of an object's fields, from the brace to the line of the closing one. -/
def fieldsOpen (level : Nat) (k : String) (v : Value) (fs : List (String × Value)) : List Char :=
  ['{'] ++ (newline (level + 1) ++ ((quote k ++ [':', ' ']) ++ (pretty (level + 1) v ++
    (prettyFields (level + 1) fs ++ newline level))))

theorem pretty_array_cons (level : Nat) (v : Value) (vs : List Value) :
    pretty level (.array (v :: vs)) = itemsOpen level v vs ++ [']'] := by
  simp [pretty, itemsOpen]

theorem pretty_object_cons (level : Nat) (k : String) (v : Value) (fs : List (String × Value)) :
    pretty level (.object ((k, v) :: fs)) = fieldsOpen level k v fs ++ ['}'] := by
  simp [pretty, fieldsOpen]

section Containers

variable {level : Nat} {v : Value} {vs : List Value} {fs : List (String × Value)}
  (hv : ∀ rest, Stops rest → Prints rest (pretty (level + 1) v) v.lexemes)

include hv in
theorem prints_itemsOpen (hvs : ∀ rest, Stops rest →
      Prints rest (prettyItems (level + 1) vs) (Value.itemLexemes vs)) (rest : List Char) :
    Prints rest (itemsOpen level v vs)
      (.openBracket :: (v.lexemes ++ Value.itemLexemes vs)) := by
  have hclose := stops_newline level rest
  refine .mark rfl (.newline (.append (hv _ ?_) ?_) _)
  · rw [List.append_assoc]
    exact stops_prettyItems _ vs hclose
  · rw [← List.append_nil (Value.itemLexemes vs)]
    exact .append (hvs _ hclose) (prints_newline _ _)

include hv in
theorem prints_fieldsOpen (hfs : ∀ rest, Stops rest →
      Prints rest (prettyFields (level + 1) fs) (Value.fieldLexemes fs)) (k : String)
    (rest : List Char) : Prints rest (fieldsOpen level k v fs)
      (.openBrace :: .string k :: .colon :: (v.lexemes ++ Value.fieldLexemes fs)) := by
  have hclose := stops_newline level rest
  refine .mark rfl (.newline (.key (.append (hv _ ?_) ?_) k) _)
  · rw [List.append_assoc]
    exact stops_prettyFields _ fs hclose
  · rw [← List.append_nil (Value.fieldLexemes fs)]
    exact .append (hfs _ hclose) (prints_newline _ _)

end Containers

mutual

/-- The pretty form of a value is a layout of the tokens of the value. -/
theorem prints_pretty : ∀ (v : Value) (level : Nat) (rest : List Char),
    (∀ x ∈ v.numbers, x.Legible) → Stops rest → Prints rest (pretty level v) v.lexemes
  | .null, _, _, hv, hrest => prints_leaf rfl hv hrest
  | .bool _, _, _, hv, hrest => prints_leaf rfl hv hrest
  | .number _, _, _, hv, hrest => prints_leaf rfl hv hrest
  | .string _, _, _, hv, hrest => prints_leaf rfl hv hrest
  | .array [], _, rest, _, _ => .mark rfl (prints_mark rfl rest)
  | .array (v :: vs), level, rest, hv, hrest => by
    obtain ⟨hv, hvs⟩ := List.forall_mem_append.1 hv
    rw [pretty_array_cons]
    exact .append (l := .openBracket :: (v.lexemes ++ Value.itemLexemes vs))
      (prints_itemsOpen (fun r => prints_pretty v (level + 1) r hv)
        (fun r => prints_prettyItems vs (level + 1) r hvs) _)
      (prints_mark rfl rest)
  | .object [], _, rest, _, _ => .mark rfl (prints_mark rfl rest)
  | .object ((k, v) :: fs), level, rest, hv, hrest => by
    obtain ⟨hv, hfs⟩ := List.forall_mem_append.1 hv
    rw [pretty_object_cons]
    exact .append (l := .openBrace :: .string k :: .colon :: (v.lexemes ++ Value.fieldLexemes fs))
      (prints_fieldsOpen (fun r => prints_pretty v (level + 1) r hv)
        (fun r => prints_prettyFields fs (level + 1) r hfs) k _)
      (prints_mark rfl rest)

theorem prints_prettyItems : ∀ (vs : List Value) (level : Nat) (rest : List Char),
    (∀ x ∈ Value.itemNumbers vs, x.Legible) → Stops rest →
      Prints rest (prettyItems level vs) (Value.itemLexemes vs)
  | [], _, _, _, _ => .nil
  | v :: vs, level, rest, hv, hrest => by
    obtain ⟨hv, hvs⟩ := List.forall_mem_append.1 hv
    rw [prettyItems, List.append_assoc]
    refine .mark rfl (.newline (.append ?_ (prints_prettyItems vs level rest hvs hrest)) level)
    exact prints_pretty v level _ hv (stops_prettyItems level vs hrest)

theorem prints_prettyFields : ∀ (fs : List (String × Value)) (level : Nat) (rest : List Char),
    (∀ x ∈ Value.fieldNumbers fs, x.Legible) → Stops rest →
      Prints rest (prettyFields level fs) (Value.fieldLexemes fs)
  | [], _, _, _, _ => .nil
  | (k, v) :: fs, level, rest, hv, hrest => by
    obtain ⟨hv, hfs⟩ := List.forall_mem_append.1 hv
    have hlayout : prettyFields level ((k, v) :: fs) =
        ',' :: (newline level ++ ((quote k ++ [':', ' ']) ++
          (pretty level v ++ prettyFields level fs))) := by simp [prettyFields]
    rw [hlayout]
    have hfields := prints_prettyFields fs level rest hfs hrest
    refine .mark rfl (.newline (.key (.append ?_ hfields) k) level)
    exact prints_pretty v level _ hv (stops_prettyFields level fs hrest)

end

/-- An object is its text up to the line of the closing brace, and the brace. -/
theorem pretty_object_split {fs : List (String × Value)}
    (hfs : ∀ x ∈ (Value.object fs).numbers, x.Legible) (level : Nat) :
    ∃ (front : List Char) (ls : List Lexeme), pretty level (.object fs) = front ++ ['}'] ∧
      (Value.object fs).lexemes = ls ++ [.closeBrace] ∧ ∀ rest, Prints rest front ls := by
  match fs with
  | [] => exact ⟨['{'], [.openBrace], rfl, rfl, prints_mark rfl⟩
  | (k, v) :: fs =>
    obtain ⟨hv, hfs⟩ := List.forall_mem_append.1 hfs
    exact ⟨_, _, pretty_object_cons level k v fs, rfl,
      prints_fieldsOpen (fun r => prints_pretty v (level + 1) r hv)
        (fun r => prints_prettyFields fs (level + 1) r hfs) k⟩

end Literal

end ColumnMetadata
