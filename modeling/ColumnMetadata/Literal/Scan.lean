import ColumnMetadata.Literal.Token
import ColumnMetadata.Text.Blank
import ColumnMetadata.Text.Bytes

/-!
# Scanning a text into tokens

A scan is the list of all tokens of a text from some place on, and what stopped it: the end of the
text or the first lexical error. Between tokens stand blanks, line comments from `//` to the end of
the line, and block comments between `/*` and `*/`. Each token takes at least one character
(`next?_shorter`), so a scan with one step per remaining character sees the whole text.
-/

namespace ColumnMetadata.Literal

/-- A place in a text: its byte offset and what stands behind it. -/
structure Cursor where
  pos : Nat
  rest : List Char
deriving DecidableEq, Repr, Inhabited

/-- The place at a byte offset of a text. -/
def Cursor.at (text : List Char) (start : Nat) : Cursor := ⟨start, Text.dropBytes start text⟩

/-! ## Blanks and comments -/

mutual

/-- The place behind blanks and comments. -/
def skip (pos : Nat) : List Char → Except SyntaxError Cursor
  | [] => .ok ⟨pos, []⟩
  | '/' :: '/' :: cs => skipLine (pos + 2) cs
  | '/' :: '*' :: cs => skipBlock pos (pos + 2) cs
  | c :: cs => if Text.isBlank c then skip (pos + c.utf8Size) cs else .ok ⟨pos, c :: cs⟩

/-- Inside a line comment, which ends with its line or with the text. -/
def skipLine (pos : Nat) : List Char → Except SyntaxError Cursor
  | [] => .ok ⟨pos, []⟩
  | c :: cs => if c = '\n' then skip (pos + 1) cs else skipLine (pos + c.utf8Size) cs

/-- Inside a block comment, which has to be closed. -/
def skipBlock (start pos : Nat) : List Char → Except SyntaxError Cursor
  | [] => .error ⟨start, .unterminatedComment⟩
  | '*' :: '/' :: cs => skip (pos + 2) cs
  | c :: cs => skipBlock start (pos + c.utf8Size) cs

end

/-! ## Strings -/

/-- The value of a digit in base sixteen of either case. -/
def hexValue? (c : Char) : Option Nat :=
  if '0' ≤ c ∧ c ≤ '9' then some (c.toNat - '0'.toNat)
  else if 'a' ≤ c ∧ c ≤ 'f' then some (c.toNat - 'a'.toNat + 10)
  else if 'A' ≤ c ∧ c ≤ 'F' then some (c.toNat - 'A'.toNat + 10)
  else none

/-- The 16-bit unit that four digits in base sixteen write. -/
def unit? (a b c d : Char) : Option Nat := do
  let a ← hexValue? a
  let b ← hexValue? b
  let c ← hexValue? c
  let d ← hexValue? d
  some (((a * 16 + b) * 16 + c) * 16 + d)

/-- The first unit of a pair for a character beyond `U+FFFF`. -/
def isHighSurrogate (u : Nat) : Bool := 0xD800 ≤ u && u < 0xDC00

def isLowSurrogate (u : Nat) : Bool := 0xDC00 ≤ u && u < 0xE000

def ofSurrogates (high low : Nat) : Char :=
  Char.ofNat (0x10000 + (high - 0xD800) * 0x400 + (low - 0xDC00))

/-- The character that a backslash and this character stand for; `none` for an escaped line break,
which stands for nothing. Other characters stand for themselves. -/
def escaped (c : Char) : Option Char :=
  match c with
  | 'n' => some '\n'
  | 't' => some '\t'
  | 'r' => some '\r'
  | 'b' => some '\x08'
  | 'f' => some '\x0c'
  | '\n' => none
  | c => some c

/-- A string literal's characters and the place behind its closing quote. -/
structure StringBody where
  chars : List Char
  behind : Cursor

/-- A character in front of the rest of a string literal. -/
def StringBody.cons (c : Char) (b : StringBody) : StringBody := { b with chars := c :: b.chars }

/-- The rest of a string literal that began with the given quote at offset `start`. -/
def stringBody (quote : Char) (start pos : Nat) : List Char → Except SyntaxError StringBody
  | [] => .error ⟨start, .unterminatedString⟩
  | c :: cs =>
    if c = quote then .ok ⟨[], ⟨pos + c.utf8Size, cs⟩⟩
    else if c = '\n' then .error ⟨start, .unterminatedString⟩
    else if c = '\\' then
      match cs with
      | [] => .error ⟨start, .unterminatedString⟩
      | 'u' :: h₁ :: h₂ :: h₃ :: h₄ :: cs =>
        match unit? h₁ h₂ h₃ h₄ with
        | none => .error ⟨pos + 2, .badUnicodeEscape⟩
        | some high =>
          if isHighSurrogate high then
            match cs with
            | '\\' :: 'u' :: l₁ :: l₂ :: l₃ :: l₄ :: cs =>
              match unit? l₁ l₂ l₃ l₄ with
              | none => .error ⟨pos + 8, .badUnicodeEscape⟩
              | some low =>
                if isLowSurrogate low then
                  (stringBody quote start (pos + 12) cs).map (.cons (ofSurrogates high low))
                else .error ⟨pos + 2, .unpairedSurrogate⟩
            | '\\' :: 'u' :: _ => .error ⟨pos + 8, .badUnicodeEscape⟩
            | _ => .error ⟨pos + 2, .unpairedSurrogate⟩
          else if isLowSurrogate high then .error ⟨pos + 2, .badUnicodeEscape⟩
          else (stringBody quote start (pos + 6) cs).map (.cons (Char.ofNat high))
      | 'u' :: _ => .error ⟨pos + 2, .badUnicodeEscape⟩
      | e :: cs =>
        match escaped e with
        | none => stringBody quote start (pos + 1 + e.utf8Size) cs
        | some c => (stringBody quote start (pos + 1 + e.utf8Size) cs).map (.cons c)
    else (stringBody quote start (pos + c.utf8Size) cs).map (.cons c)

/-! ## Words and numbers -/

/-- A character that words and numbers consist of. -/
def isBare (c : Char) : Bool :=
  Text.isIdentifier c || c == '.' || c == '+' || c == '-'

/-- What a run of word characters is: a number, else a word if all of it is identifier. -/
def bareLexeme? (run : List Char) : Option Lexeme :=
  match Number.read? run with
  | some x => some (.number (String.ofList run) x)
  | none => if run.all Text.isIdentifier then some (.word (String.ofList run)) else none

/-! ## Tokens -/

def punctuation? (c : Char) : Option Lexeme :=
  match c with
  | '{' => some .openBrace
  | '}' => some .closeBrace
  | '[' => some .openBracket
  | ']' => some .closeBracket
  | ':' => some .colon
  | ',' => some .comma
  | _ => none

/-- The token that begins with the given character, and the place behind it. -/
def tokenAt (pos : Nat) (c : Char) (cs : List Char) : Except SyntaxError (Token × Cursor) :=
  match punctuation? c with
  | some l => .ok (⟨l, pos, pos + c.utf8Size⟩, ⟨pos + c.utf8Size, cs⟩)
  | none =>
    if c = '"' ∨ c = '\'' then
      (stringBody c pos (pos + c.utf8Size) cs).map fun b =>
        (⟨.string (String.ofList b.chars), pos, b.behind.pos⟩, b.behind)
    else if isBare c then
      let run := c :: cs.takeWhile isBare
      let behind := pos + Text.bytes run
      match bareLexeme? run with
      | some l => .ok (⟨l, pos, behind⟩, ⟨behind, cs.dropWhile isBare⟩)
      | none => .error ⟨pos, .malformedWord (String.ofList run)⟩
    else .ok (⟨.other c, pos, pos + c.utf8Size⟩, ⟨pos + c.utf8Size, cs⟩)

/-- The next token and the place behind it; `none` at the end of the text, with the offset of the
end. -/
def next? (at_ : Cursor) : Except SyntaxError (Nat × Option (Token × Cursor)) := do
  let p ← skip at_.pos at_.rest
  match p.rest with
  | [] => .ok (p.pos, none)
  | c :: cs => (tokenAt p.pos c cs).map fun t => (p.pos, some t)

/-- The tokens of a text from some place on, and what stopped the scan: the offset of the text's
end, or a lexical error. -/
structure Scan where
  tokens : List Token
  ending : Except SyntaxError Nat

def Scan.cons (t : Token) (s : Scan) : Scan := { s with tokens := t :: s.tokens }

def scanFrom : Nat → Cursor → Scan
  | 0, p => ⟨[], .ok p.pos⟩
  | n + 1, p =>
    match next? p with
    | .error e => ⟨[], .error e⟩
    | .ok (stop, none) => ⟨[], .ok stop⟩
    | .ok (_, some (t, p)) => (scanFrom n p).cons t

/-- The scan from a place to the end of the text. -/
def scan (p : Cursor) : Scan := scanFrom (p.rest.length + 1) p

def scanAt (text : List Char) (start : Nat) : Scan := scan (.at text start)

end ColumnMetadata.Literal
