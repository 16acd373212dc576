import ColumnMetadata.Literal.Scan
import ColumnMetadata.Value.Basic

/-!
# Reading object literals

The grammar of values over tokens:

```text
value  := object | array | string | number | true | false | null
object := '{' [ member (',' member)* [','] ] '}'
member := key ':' value
key    := word | string | number
array  := '[' [ value (',' value)* [','] ] ']'
```

At most `maxDepth` containers may be open at once. A key that comes again keeps the place of its
first occurrence and takes the value of its last. The reader works on a scan: a lexical error
counts only once the reader comes to the place where the scan stopped.
-/

namespace ColumnMetadata.Literal

/-- How many containers may be open at once. -/
def maxDepth : Nat := 128

/-- The tokens not yet read, and the byte offset that was read up to. -/
structure Unread where
  pos : Nat
  tokens : List Token
deriving DecidableEq, Repr

/-- What stopped a scan. -/
abbrev Ending := Except SyntaxError Nat

/-- The error of running out of tokens where something was expected. -/
def Ending.missing (e : Ending) (what : Expected) (pos : Nat) : SyntaxError :=
  match e with
  | .error err => err
  | .ok _ => ⟨pos, .unexpectedEnd what⟩

def Ending.take (e : Ending) (what : Expected) (u : Unread) :
    Except SyntaxError (Token × Unread) :=
  match u.tokens with
  | [] => .error (e.missing what u.pos)
  | t :: ts => .ok (t, ⟨t.stop, ts⟩)

/-- Looks ahead for one token. At the end of the text this moves over what stands in front of the
end. -/
def Ending.lookAhead (e : Ending) (u : Unread) : Unread :=
  match u.tokens, e with
  | [], .ok stop => { u with pos := stop }
  | _, _ => u

def Lexeme.key? : Lexeme → Option String
  | .word w => some w
  | .string s => some s
  | .number t _ => some t
  | _ => none

/-- The value of a token that is a value by itself. -/
def Lexeme.leaf : Lexeme → Except SyntaxError.Cause Value
  | .string s => .ok (.string s)
  | .number _ x => .ok (.number x)
  | .word w =>
    if w = "true" then .ok (.bool true)
    else if w = "false" then .ok (.bool false)
    else if w = "null" then .ok .null
    else .error (.unquotedValue w)
  | found => .error (.unexpectedToken .value found)

mutual

/-- Reads a value. The first number bounds the steps, the second counts the open containers. -/
def value (e : Ending) : Nat → Nat → Unread → Except SyntaxError (Value × Unread)
  | 0, _, u => .error (e.missing .value u.pos)
  | n + 1, depth, u => do
    let (t, u) ← e.take .value u
    match t.lexeme with
    | .openBrace =>
      if depth < maxDepth then members e n (depth + 1) [] u else .error ⟨t.start, .nestingTooDeep⟩
    | .openBracket =>
      if depth < maxDepth then items e n (depth + 1) [] (e.lookAhead u)
      else .error ⟨t.start, .nestingTooDeep⟩
    | l =>
      match l.leaf with
      | .ok v => .ok (v, u)
      | .error cause => .error ⟨t.start, cause⟩

/-- Reads what is left of an object behind the given fields. -/
def members (e : Ending) :
    Nat → Nat → Entries Value → Unread → Except SyntaxError (Value × Unread)
  | 0, _, _, u => .error (e.missing .keyOrCloseBrace u.pos)
  | n + 1, depth, fields, u => do
    let (t, u) ← e.take .keyOrCloseBrace u
    if t.lexeme = .closeBrace then .ok (.object fields, u)
    else
      match t.lexeme.key? with
      | none => .error ⟨t.start, .unexpectedToken .keyOrCloseBrace t.lexeme⟩
      | some key => do
        let (t, u) ← e.take .colon u
        if t.lexeme = .colon then do
          let (v, u) ← value e n depth u
          let fields := Entries.insert key v fields
          let (t, u) ← e.take .commaOrCloseBrace u
          match t.lexeme with
          | .comma => members e n depth fields (e.lookAhead u)
          | .closeBrace => .ok (.object fields, u)
          | found => .error ⟨t.start, .unexpectedToken .commaOrCloseBrace found⟩
        else .error ⟨t.start, .unexpectedToken .colon t.lexeme⟩

/-- Reads what is left of an array behind the given items. -/
def items (e : Ending) : Nat → Nat → List Value → Unread → Except SyntaxError (Value × Unread)
  | 0, _, _, u => .error (e.missing .value u.pos)
  | n + 1, depth, done, u =>
    match u.tokens with
    | ⟨.closeBracket, _, stop⟩ :: ts => .ok (.array done, ⟨stop, ts⟩)
    | _ => do
      let (v, u) ← value e n depth u
      let done := done ++ [v]
      let (t, u) ← e.take .commaOrCloseBracket u
      match t.lexeme with
      | .comma => items e n depth done (e.lookAhead u)
      | .closeBracket => .ok (.array done, u)
      | found => .error ⟨t.start, .unexpectedToken .commaOrCloseBracket found⟩

end

/-- Reads the value at the start of a scan that began at an offset. Two steps for each token are
enough. -/
def Scan.value (s : Scan) (start : Nat) : Except SyntaxError (Value × Unread) :=
  Literal.value s.ending (2 * s.tokens.length + 2) 0 ⟨start, s.tokens⟩

/-- The value that begins at a byte offset of a text, and the offset behind it. -/
def parseAt (text : List Char) (start : Nat) : Except SyntaxError (Value × Nat) :=
  ((scanAt text start).value start).map fun (v, u) => (v, u.pos)

def parse (text : List Char) : Except SyntaxError Value := do
  let s := scanAt text 0
  let (v, u) ← s.value 0
  match u.tokens, s.ending with
  | t :: _, _ => .error ⟨t.start, .contentBehindValue⟩
  | [], .error e => .error e
  | [], .ok _ => .ok v

end ColumnMetadata.Literal
