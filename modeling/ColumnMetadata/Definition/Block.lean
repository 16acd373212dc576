import ColumnMetadata.Literal.Parse

/-!
# The configuration block of a definition file

A definition file is a query text with at most one configuration block: the keyword `config` on a
word boundary, blanks, and an object in braces. A located block is the file's text cut into the parts
around it, so that the parts put together are the text again (`Block.text_of_locate` in the proofs
that use it) and replacing the block leaves everything outside as it was. Braces are matched on
tokens: braces in strings and comments do not count, and nesting has no limit.
-/

namespace ColumnMetadata

open Literal

/-- The keyword that introduces a configuration block. -/
def Block.keyword : List Char := ['c', 'o', 'n', 'f', 'i', 'g']

/-- A text cut at its configuration block. -/
structure Block where
  /-- What stands in front of the keyword. -/
  before : List Char
  /-- The blanks between the keyword and the opening brace. -/
  gap : List Char
  /-- From the opening brace to the closing one, both included. -/
  body : List Char
  /-- What stands behind the closing brace. -/
  after : List Char
deriving DecidableEq, Repr

namespace Block

/-- The block itself, from its keyword to its closing brace. -/
def content (b : Block) : List Char := keyword ++ b.gap ++ b.body

def text (b : Block) : List Char := b.before ++ b.content ++ b.after

/-- The byte offset of the keyword. -/
def start (b : Block) : Nat := Text.bytes b.before

/-- The byte offset of the opening brace. -/
def bodyStart (b : Block) : Nat := b.start + Text.bytes (keyword ++ b.gap)

/-- The byte offset behind the closing brace. -/
def stop (b : Block) : Nat := b.bodyStart + Text.bytes b.body

/-- The text with other characters in the place of the block. -/
def replace (b : Block) (content : List Char) : List Char := b.before ++ content ++ b.after

def dropKeyword? : List Char → List Char → Option (List Char)
  | [], cs => some cs
  | _ :: _, [] => none
  | k :: ks, c :: cs => if k = c then dropKeyword? ks cs else none

/-- Whether a block opens here: no identifier character in front, then the keyword, blanks and a
brace. Gives the blanks, and the text from the brace on. -/
def opens? (previous : Option Char) (cs : List Char) : Option (List Char × List Char) :=
  if previous.any Text.isIdentifier then none
  else do
    let behind ← dropKeyword? keyword cs
    match behind.dropWhile Text.isBlank with
    | '{' :: rest => some (behind.takeWhile Text.isBlank, '{' :: rest)
    | _ => none

/-- The first place where a block opens: what stands in front of its keyword, its blanks, and the
text from its brace on. -/
def opening? (previous : Option Char) :
    List Char → Option (List Char × List Char × List Char)
  | [] => none
  | c :: cs =>
    match opens? previous (c :: cs) with
    | some (gap, rest) => some ([], gap, rest)
    | none => (opening? (some c) cs).map fun (before, gap, rest) => (c :: before, gap, rest)

/-- The byte offset behind the brace that closes the brace at offset `opened`, with `depth` braces
open in front of the tokens. -/
def closing (ending : Ending) (opened : Nat) : Nat → List Token → Except SyntaxError Nat
  | _, [] =>
    match ending with
    | .error e => .error e
    | .ok _ => .error ⟨opened, .blockNeverClosed⟩
  | depth, t :: ts =>
    match t.lexeme with
    | .openBrace => closing ending opened (depth + 1) ts
    | .closeBrace => if depth ≤ 1 then .ok t.stop else closing ending opened (depth - 1) ts
    | _ => closing ending opened depth ts

/-- The first block of a text; `none` when no block opens in it, an error when the block that opens
is not closed or cannot be read up to its end. -/
def locate (text : List Char) : Except SyntaxError (Option Block) :=
  match opening? none text with
  | none => .ok none
  | some (before, gap, rest) =>
    let opened := Text.bytes (before ++ keyword ++ gap)
    let s := scan ⟨opened, rest⟩
    (closing s.ending opened 0 s.tokens).map fun stop =>
      some ⟨before, gap, Text.takeBytes (stop - opened) rest, Text.dropBytes (stop - opened) rest⟩

end Block

end ColumnMetadata
