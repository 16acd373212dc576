import ColumnMetadata.Literal.Scan

/-!
# Scanning JSON

The lexemes of a JSON text, read strictly: no comments, no byte order mark, only the four blanks of
JSON, and no control characters in strings. Two faults are kept in the lexeme instead of failing the
scan, since a member that nobody asks for may have them: a string with an unpaired surrogate escape
has no text, and a number out of range has no value.
-/

namespace ColumnMetadata.Json

open Literal (unit? isHighSurrogate isLowSurrogate ofSurrogates)

/-- A lexeme of JSON. -/
inductive Lexeme where
  | openBrace
  | closeBrace
  | openBracket
  | closeBracket
  | colon
  | comma
  | null
  | bool (value : Bool)
  | number (value : Option Number)
  | string (text : Option String)
deriving DecidableEq, Repr, Inhabited

/-- The blanks of JSON. -/
def isBlank (c : Char) : Bool := c == ' ' || c == '\t' || c == '\n' || c == '\r'

/-! ## Strings -/

/-- A piece of a string: a character, or a 16-bit unit written as an escape. -/
inductive Piece where
  | char (c : Char)
  | unit (u : Nat)
deriving DecidableEq, Repr

/-- The character that a backslash and this character stand for. -/
def escaped? (c : Char) : Option Char :=
  match c with
  | '"' => some '"'
  | '\\' => some '\\'
  | '/' => some '/'
  | 'b' => some '\x08'
  | 'f' => some '\x0c'
  | 'n' => some '\n'
  | 'r' => some '\r'
  | 't' => some '\t'
  | _ => none

/-- The pieces of the rest of a string, and what follows its closing quote. -/
def stringBody? : List Char → Option (List Piece × List Char)
  | [] => none
  | '"' :: cs => some ([], cs)
  | '\\' :: 'u' :: a :: b :: c :: d :: cs => do
    let u ← unit? a b c d
    let (ps, rest) ← stringBody? cs
    some (.unit u :: ps, rest)
  | '\\' :: e :: cs => do
    let c ← escaped? e
    let (ps, rest) ← stringBody? cs
    some (.char c :: ps, rest)
  | c :: cs =>
    if c = '\\' ∨ c.toNat < 32 then none
    else do
      let (ps, rest) ← stringBody? cs
      some (.char c :: ps, rest)

/-- The text of pieces; `none` when a surrogate stands alone. -/
def assemble? : List Piece → Option (List Char)
  | [] => some []
  | .char c :: ps => (assemble? ps).map (c :: ·)
  | .unit u :: ps =>
    if isHighSurrogate u then
      match ps with
      | .unit v :: ps =>
        if isLowSurrogate v then (assemble? ps).map (ofSurrogates u v :: ·) else none
      | _ => none
    else if isLowSurrogate u then none
    else (assemble? ps).map (Char.ofNat u :: ·)

/-! ## Lexemes -/

def isNumeric (c : Char) : Bool :=
  c.isDigit || c == '-' || c == '+' || c == '.' || c == 'e' || c == 'E'

/-- The lexeme at the start of a text that begins with no blank, and what follows it. -/
def lexeme? : List Char → Option (Lexeme × List Char)
  | [] => none
  | '{' :: cs => some (.openBrace, cs)
  | '}' :: cs => some (.closeBrace, cs)
  | '[' :: cs => some (.openBracket, cs)
  | ']' :: cs => some (.closeBracket, cs)
  | ':' :: cs => some (.colon, cs)
  | ',' :: cs => some (.comma, cs)
  | 'n' :: 'u' :: 'l' :: 'l' :: cs => some (.null, cs)
  | 't' :: 'r' :: 'u' :: 'e' :: cs => some (.bool true, cs)
  | 'f' :: 'a' :: 'l' :: 's' :: 'e' :: cs => some (.bool false, cs)
  | '"' :: cs => do
    let (ps, rest) ← stringBody? cs
    some (.string ((assemble? ps).map String.ofList), rest)
  | cs => do
    let parts ← Number.parts? (cs.takeWhile isNumeric)
    some (.number (Number.ofParts? parts), cs.dropWhile isNumeric)

/-- The lexemes of a text, at most the given number of them. -/
def scanFrom? : Nat → List Char → Option (List Lexeme)
  | n, cs =>
    match cs.dropWhile isBlank, n with
    | [], _ => some []
    | _ :: _, 0 => none
    | c :: cs, n + 1 => do
      let (l, rest) ← lexeme? (c :: cs)
      let ls ← scanFrom? n rest
      some (l :: ls)

def scan? (cs : List Char) : Option (List Lexeme) := scanFrom? cs.length cs

end ColumnMetadata.Json
