import ColumnMetadata.Number.Reader
import ColumnMetadata.Text.Letters
import ColumnMetadata.Text.Quoted

/-!
# Tokens of object literals

The parts of an object literal and the ways in which reading one can fail. A token carries the byte
offsets at which it begins and ends in the text; an error carries the offset it is reported at and
its cause, and `SyntaxError.message` is its wording.
-/

namespace ColumnMetadata.Literal

/-- What a token is. -/
inductive Lexeme where
  | openBrace
  | closeBrace
  | openBracket
  | closeBracket
  | colon
  | comma
  /-- A string literal with its escapes resolved. -/
  | string (value : String)
  /-- A number: its text and what it stands for. -/
  | number (text : String) (value : Number)
  /-- A bare word that is no number. -/
  | word (text : String)
  /-- Any other character. -/
  | other (char : Char)
deriving DecidableEq, Repr, Inhabited

/-- A lexeme and its place in the text. -/
structure Token where
  lexeme : Lexeme
  /-- The byte offset of its first character. -/
  start : Nat
  /-- The byte offset behind its last character. -/
  stop : Nat
deriving DecidableEq, Repr, Inhabited

/-- What the grammar allows at a place. -/
inductive Expected where
  | value
  | keyOrCloseBrace
  | colon
  | commaOrCloseBrace
  | commaOrCloseBracket
deriving DecidableEq, Repr, Inhabited

/-- Why a text is not an object literal. -/
inductive SyntaxError.Cause where
  | unterminatedComment
  | unterminatedString
  | badUnicodeEscape
  | unpairedSurrogate
  /-- A run of word characters that is neither a number nor a word. -/
  | malformedWord (text : String)
  | unexpectedEnd (expected : Expected)
  | unexpectedToken (expected : Expected) (found : Lexeme)
  /-- A bare word in the place of a value. -/
  | unquotedValue (text : String)
  | nestingTooDeep
  /-- Something stands behind the value that should be the whole text. -/
  | contentBehindValue
  /-- The configuration block has no closing brace. -/
  | blockNeverClosed
  /-- The value of the configuration block ends before the block does. -/
  | contentInBlock
deriving DecidableEq, Repr, Inhabited

/-- An error and the byte offset it is reported at. -/
structure SyntaxError where
  offset : Nat
  cause : SyntaxError.Cause
deriving DecidableEq, Repr, Inhabited

/-! ## Wording -/

/-- A token as an error message shows it. -/
def Lexeme.description : Lexeme → String
  | openBrace => "`\x7b`"
  | closeBrace => "`\x7d`"
  | openBracket => "`[`"
  | closeBracket => "`]`"
  | colon => "`:`"
  | comma => "`,`"
  | string s => "string " ++ Text.quoted s
  | number t _ => "number " ++ t
  | word w => "`" ++ w ++ "`"
  | other c => "`" ++ String.singleton c ++ "`"

/-- What was allowed, as an error message names it. -/
def Expected.description : Expected → String
  | value => "a value"
  | keyOrCloseBrace => "a key or `\x7d`"
  | colon => "`:`"
  | commaOrCloseBrace => "`,` or `\x7d`"
  | commaOrCloseBracket => "`,` or `]`"

def SyntaxError.Cause.message : SyntaxError.Cause → String
  | unterminatedComment => "unterminated block comment"
  | unterminatedString => "unterminated string"
  | badUnicodeEscape => "invalid \\u escape"
  | unpairedSurrogate => "unpaired surrogate in \\u escape"
  | malformedWord t => "unexpected `" ++ t ++ "`"
  | unexpectedEnd e => "unexpected end of input, expected " ++ e.description
  | unexpectedToken e f => "expected " ++ e.description ++ ", found " ++ f.description
  | unquotedValue t => "unquoted value `" ++ t ++ "`"
  | nestingTooDeep => "nesting too deep"
  | contentBehindValue => "unexpected content after value"
  | blockNeverClosed => "config block is never closed"
  | contentInBlock => "unexpected content in config block"

def SyntaxError.message (e : SyntaxError) : String :=
  "Syntax error at byte " ++ toString e.offset ++ ": " ++ e.cause.message

end ColumnMetadata.Literal
