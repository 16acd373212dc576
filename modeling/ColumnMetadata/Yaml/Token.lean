import ColumnMetadata.Literal.Scan

/-!
# Tokens of YAML

The tokens of a YAML text, and the readers of the tokens that are longer than a mark: directives,
anchors, tags, and scalars in their five styles. A place in the text counts characters, lines and
columns, since indentation and the reach of a key depend on them. Each reader gives `none` where the
text is not YAML.
-/

namespace ColumnMetadata.Yaml

/-- A token. -/
inductive Token where
  | versionDirective (major minor : Nat)
  | tagDirective (handle : List Char)
  | documentStart
  | documentEnd
  | streamEnd
  | blockSequenceStart
  | blockMappingStart
  | blockEnd
  | flowSequenceStart
  | flowSequenceEnd
  | flowMappingStart
  | flowMappingEnd
  | blockEntry
  | flowEntry
  | key
  | value
  | alias (name : List Char)
  | anchor (name : List Char)
  /-- A tag, of which only the handle matters: it has to be declared. -/
  | tag (handle : List Char)
  /-- A scalar, and whether it is written without quotes and block marks. -/
  | scalar (text : List Char) (plain : Bool)
deriving DecidableEq, Repr, Inhabited

/-! ## Characters -/

def isBlank (c : Char) : Bool := c == ' ' || c == '\t'

def isBreak (c : Char) : Bool :=
  c == '\n' || c == '\r' || c == '\x85' || c == '\u2028' || c == '\u2029'

def isNameChar (c : Char) : Bool := c.isAlphanum || c == '_' || c == '-'

/-- Whether nothing, a blank or a line break stands here. -/
def endsWord : Option Char → Bool
  | none => true
  | some c => isBlank c || isBreak c

/-- Whether nothing or a line break stands here. -/
def endsLine : Option Char → Bool
  | none => true
  | some c => isBreak c

/-- A character that may stand in a YAML text at all. -/
def isAllowed (c : Char) : Bool :=
  let n := c.toNat
  n == 9 || n == 10 || n == 13 || (0x20 ≤ n && n ≤ 0x7E) || n == 0x85 ||
    (0xA0 ≤ n && n ≤ 0xFFFD) || 0x10000 ≤ n

/-! ## Places -/

/-- A place in a text. -/
structure Place where
  rest : List Char
  index : Nat
  line : Nat
  column : Nat
deriving Inhabited

namespace Place

def peek (p : Place) : Option Char := p.rest.head?

def ahead (p : Place) (n : Nat) : Option Char := p.rest[n]?

def sees (p : Place) (c : Char) : Bool := p.peek == some c

def skip (p : Place) : Place := ⟨p.rest.tail, p.index + 1, p.line, p.column + 1⟩

def skips (p : Place) (n : Nat) : Place := ⟨p.rest.drop n, p.index + n, p.line, p.column + n⟩

def skipLine (p : Place) : Place :=
  match p.rest with
  | '\r' :: '\n' :: cs => ⟨cs, p.index + 2, p.line + 1, 0⟩
  | _ :: cs => ⟨cs, p.index + 1, p.line + 1, 0⟩
  | [] => p

/-- What the line break here counts as. -/
def breakText (p : Place) : List Char :=
  match p.peek with
  | some c => if c = '\u2028' ∨ c = '\u2029' then [c] else if isBreak c then ['\n'] else []
  | none => []

/-- Passes over the characters of a line that have a property. -/
def skipWhile (p : Place) (ok : Char → Bool) : Place :=
  p.skips (p.rest.takeWhile ok).length

def seesDocumentMark (p : Place) : Bool :=
  p.column == 0 && endsWord (p.ahead 3) &&
    (p.rest.take 3 == ['-', '-', '-'] || p.rest.take 3 == ['.', '.', '.'])

end Place

/-! ## Names and tags -/

/-- A number of at most nine digits. -/
def shortNumber? (p : Place) : Option (Nat × Place) :=
  let ds := p.rest.takeWhile Char.isDigit
  if ds.isEmpty ∨ 9 < ds.length then none
  else some (ds.foldl (fun n d => n * 10 + (d.toNat - '0'.toNat)) 0, p.skips ds.length)

/-- An alias or an anchor behind its mark. -/
def name? (p : Place) : Option (List Char × Place) :=
  let name := p.rest.takeWhile isNameChar
  let behind := p.skips name.length
  let follows := behind.peek
  if !name.isEmpty && (endsWord follows ||
      follows.any fun c => ['?', ':', ',', ']', '}', '%', '@', '\x60'].contains c) then
    some (name, behind)
  else none

/-- The handle of a tag: a name between exclamation marks, of which the second may be missing
outside directives. -/
def tagHandle? (inDirective : Bool) (p : Place) : Option (List Char × Place) :=
  if p.sees '!' then
    let name := p.skip.rest.takeWhile isNameChar
    let behind := p.skip.skips name.length
    if behind.sees '!' then some ('!' :: name ++ ['!'], behind.skip)
    else if inDirective ∧ !name.isEmpty then none
    else some ('!' :: name, behind)
  else none

def isTagChar (verbatim : Bool) (c : Char) : Bool :=
  isNameChar c ||
    [';', '/', '?', ':', '@', '&', '=', '+', '$', '.', '!', '~', '*', '\'', '(', ')'].contains c ||
    (verbatim && [',', '[', ']'].contains c)

/-- The bytes that remain of a character after its first byte, if the byte begins one. -/
def continuationCount? (b : Nat) : Option Nat :=
  if b < 0x80 then some 0
  else if 0xC0 ≤ b ∧ b < 0xE0 then some 1
  else if 0xE0 ≤ b ∧ b < 0xF0 then some 2
  else if 0xF0 ≤ b ∧ b < 0xF8 then some 3
  else none

/-- Passes over the characters of a tag; escaped bytes have to make up characters. The second number
counts the bytes of a character that are still to come. Gives the count of characters passed. -/
def skipTag? (verbatim : Bool) : Nat → Nat → Place → Option (Nat × Place)
  | 0, pending, p => if pending = 0 then some (0, p) else none
  | n + 1, pending, p =>
    match p.rest with
    | '%' :: a :: b :: _ => do
      let high ← Literal.hexValue? a
      let low ← Literal.hexValue? b
      let byte := high * 16 + low
      let pending ← if pending = 0 then continuationCount? byte
        else if 0x80 ≤ byte ∧ byte < 0xC0 then some (pending - 1) else none
      let (count, p) ← skipTag? verbatim n pending (p.skips 3)
      some (count + 1, p)
    | '%' :: _ => none
    | c :: _ =>
      if pending ≠ 0 then none
      else if isTagChar verbatim c then do
        let (count, p) ← skipTag? verbatim n 0 p.skip
        some (count + 1, p)
      else some (0, p)
    | [] => if pending = 0 then some (0, p) else none

/-- A tag; gives its handle, which is empty for a tag written out. -/
def tag? (inFlow : Bool) (p : Place) : Option (List Char × Place) := do
  let (handle, p) ←
    if p.ahead 1 = some '<' then do
      let (count, p) ← skipTag? true p.rest.length 0 (p.skips 2)
      if count = 0 ∨ !p.sees '>' then none else some ([], p.skip)
    else do
      let (handle, p) ← tagHandle? false p
      let (count, p) ← skipTag? false p.rest.length 0 p
      if 1 < handle.length ∧ handle.getLast? = some '!' then
        if count = 0 then none else some (handle, p)
      else if handle = ['!'] ∧ count = 0 then some ([], p)
      else some (['!'], p)
  if endsWord p.peek || (inFlow && p.sees ',') then some (handle, p) else none

/-- The rest of a directive's line: blanks, a comment and a line break. -/
def directiveEnd? (p : Place) : Option Place :=
  let p := p.skipWhile isBlank
  let p := if p.sees '#' then p.skipWhile fun c => !isBreak c else p
  if endsLine p.peek then some p.skipLine else none

def directive? (p : Place) : Option (Token × Place) := do
  let p := p.skip
  let name := p.rest.takeWhile isNameChar
  let p := p.skips name.length
  if !endsWord p.peek then none
  else if name = ['Y', 'A', 'M', 'L'] then do
    let (major, p) ← shortNumber? (p.skipWhile isBlank)
    if p.sees '.' then do
      let (minor, p) ← shortNumber? p.skip
      let p ← directiveEnd? p
      some (.versionDirective major minor, p)
    else none
  else if name = ['T', 'A', 'G'] then do
    let (handle, p) ← tagHandle? true (p.skipWhile isBlank)
    if p.peek.any isBlank then do
      let p := p.skipWhile isBlank
      let (count, p) ← skipTag? true p.rest.length 0 p
      if count = 0 ∨ !endsWord p.peek then none
      else do
        let p ← directiveEnd? p
        some (.tagDirective handle, p)
    else none
  else none

/-! ## Quoted scalars -/

/-- The blanks and line breaks between words of a scalar. -/
structure Gap where
  /-- The blanks in front of the first line break. -/
  blanks : List Char
  /-- The first line break, if it counts. -/
  first : List Char
  /-- The other line breaks. -/
  others : List Char
  /-- Whether there was a line break. -/
  broken : Bool

def Gap.none : Gap := ⟨[], [], [], false⟩

/-- What a gap stands for: blanks stand for themselves, one line break for a space, and more for one
break less. -/
def Gap.text (g : Gap) : List Char :=
  if g.broken then
    if g.first.head? = some '\n' then if g.others.isEmpty then [' '] else g.others
    else g.first ++ g.others
  else g.blanks

/-- Reads a gap. In a plain scalar a tab may not stand for indentation: below the given column it is
refused behind a line break. -/
def gap? (tabLimit : Nat) : Nat → Gap → Place → Option (Gap × Place)
  | 0, g, p => some (g, p)
  | n + 1, g, p =>
    match p.peek with
    | some c =>
      if isBlank c then
        if g.broken then
          if c = '\t' ∧ p.column < tabLimit then Option.none else gap? tabLimit n g p.skip
        else gap? tabLimit n { g with blanks := g.blanks ++ [c] } p.skip
      else if isBreak c then
        if g.broken then gap? tabLimit n { g with others := g.others ++ p.breakText } p.skipLine
        else gap? tabLimit n ⟨[], p.breakText, g.others, true⟩ p.skipLine
      else some (g, p)
    | Option.none => some (g, p)

/-- The character that a backslash and this character stand for. -/
def escaped? (c : Char) : Option Char :=
  match c with
  | '0' => some '\x00'
  | 'a' => some '\x07'
  | 'b' => some '\x08'
  | 't' => some '\t'
  | '\t' => some '\t'
  | 'n' => some '\n'
  | 'v' => some '\x0b'
  | 'f' => some '\x0c'
  | 'r' => some '\r'
  | 'e' => some '\x1b'
  | ' ' => some ' '
  | '"' => some '"'
  | '/' => some '/'
  | '\\' => some '\\'
  | 'N' => some '\x85'
  | '_' => some '\xa0'
  | 'L' => some '\u2028'
  | 'P' => some '\u2029'
  | _ => none

/-- How many digits follow an escape that gives a character's code. -/
def codeLength? (c : Char) : Option Nat :=
  match c with
  | 'x' => some 2
  | 'u' => some 4
  | 'U' => some 8
  | _ => none

def ofCode? (ds : List Char) : Option Char := do
  let n ← ds.foldlM (fun n d => (Literal.hexValue? d).map fun v => n * 16 + v) 0
  if n < 0xD800 ∨ (0xE000 ≤ n ∧ n < 0x110000) then some (Char.ofNat n) else none

/-- A scalar in quotes behind its opening quote; the text read so far stands backwards. -/
def quoted? (single : Bool) : Nat → List Char → Place → Option (List Char × Place)
  | 0, _, _ => none
  | n + 1, done, p =>
    if p.seesDocumentMark then none
    else
      match p.rest with
      | [] => none
      | '\'' :: cs =>
        if single then
          if cs.head? = some '\'' then quoted? single n ('\'' :: done) (p.skips 2)
          else some (done.reverse, p.skip)
        else quoted? single n ('\'' :: done) p.skip
      | '"' :: _ =>
        if single then quoted? single n ('"' :: done) p.skip else some (done.reverse, p.skip)
      | '\\' :: cs =>
        if single then quoted? single n ('\\' :: done) p.skip
        else
          match cs with
          | [] => none
          | e :: cs =>
            if isBreak e then do
              let (g, p) ← gap? 0 cs.length ⟨[], [], [], true⟩ p.skip.skipLine
              quoted? single n (g.text.reverse ++ done) p
            else
              match codeLength? e with
              | some k =>
                if (cs.take k).length < k then none
                else do
                  let c ← ofCode? (cs.take k)
                  quoted? single n (c :: done) (p.skips (2 + k))
              | none => do
                let c ← escaped? e
                quoted? single n (c :: done) (p.skips 2)
      | c :: cs =>
        if isBlank c || isBreak c then do
          let (g, p) ← gap? 0 (cs.length + 1) .none p
          quoted? single n (g.text.reverse ++ done) p
        else quoted? single n (c :: done) p.skip

/-! ## Plain scalars -/

/-- A character that ends a plain scalar in a flow collection. -/
def isFlowMark (c : Char) : Bool := [',', '[', ']', '{', '}'].contains c

/-- A plain scalar. The gap behind the words read so far counts only if another word follows. Gives
the text, whether the scalar ran over a line break at its end, and the place behind. -/
def plain? (inFlow : Bool) (indent : Nat) :
    Nat → List Char → Gap → Place → Option (List Char × Bool × Place)
  | 0, done, g, p => some (done.reverse, g.broken, p)
  | n + 1, done, g, p =>
    match p.peek with
    | none => some (done.reverse, g.broken, p)
    | some c =>
      let wordStart := g.broken || !g.blanks.isEmpty || done.isEmpty
      if wordStart && (p.seesDocumentMark || c == '#') then some (done.reverse, g.broken, p)
      else if isBlank c || isBreak c then do
        let (g, p) ← gap? indent (p.rest.length) g p
        if !inFlow && p.column < indent then some (done.reverse, g.broken, p)
        else plain? inFlow indent n done g p
      else if inFlow && c == ':' && (p.ahead 1).any (fun d => isFlowMark d || d == '?') then none
      else if (c == ':' && endsWord (p.ahead 1)) || (inFlow && isFlowMark c) then
        some (done.reverse, g.broken, p)
      else plain? inFlow indent n (c :: (g.text.reverse ++ done)) .none p.skip

/-! ## Block scalars -/

/-- How the line breaks at the end of a block scalar are kept. -/
inductive Chomping where
  | clip
  | strip
  | keep
deriving DecidableEq

def chomping? (c : Option Char) : Option Chomping :=
  match c with
  | some '+' => some .keep
  | some '-' => some .strip
  | _ => none

/-- The header of a block scalar behind its mark: chomping and indentation in either order, a
comment, and the line break. -/
def blockHeader? (p : Place) : Option (Chomping × Option Nat × Place) :=
  let digit (p : Place) : Option Nat :=
    p.peek.bind fun c => if c.isDigit then some (c.toNat - '0'.toNat) else none
  let (chomping, increment, p) :=
    match chomping? p.peek with
    | some ch =>
      match digit p.skip with
      | some d => (ch, some d, p.skips 2)
      | none => (ch, none, p.skip)
    | none =>
      match digit p with
      | some d =>
        match chomping? p.skip.peek with
        | some ch => (ch, some d, p.skips 2)
        | none => (.clip, some d, p.skip)
      | none => (.clip, none, p)
  if increment = some 0 then none
  else (directiveEnd? p).map fun p => (chomping, increment, p)

/-- Passes over the indentation and the empty lines in front of a line of a block scalar. An
indentation of zero is still to be found. Gives the line breaks and the widest indentation. -/
def blockBreaks? (indent : Nat) : Nat → Nat → List Char → Place → Option (List Char × Nat × Place)
  | 0, widest, breaks, p => some (breaks, widest, p)
  | n + 1, widest, breaks, p =>
    let spaces := (p.rest.takeWhile (· == ' ')).length
    let p := p.skips (if indent = 0 then spaces else min spaces (indent - p.column))
    let widest := max widest p.column
    match p.peek with
    | some c =>
      if c = '\t' ∧ (indent = 0 ∨ p.column < indent) then none
      else if isBreak c then blockBreaks? indent n widest (breaks ++ p.breakText) p.skipLine
      else some (breaks, widest, p)
    | none => some (breaks, widest, p)

/-- What is known between the lines of a block scalar. -/
structure BlockState where
  /-- The text so far. -/
  done : List Char
  /-- The line break behind the last line. -/
  lineBreak : List Char
  /-- The empty lines behind it. -/
  breaks : List Char
  /-- Whether the last line began with a blank. -/
  blank : Bool

def blockLines? (literal : Bool) (indent : Nat) :
    Nat → BlockState → Place → Option (BlockState × Place)
  | 0, s, p => some (s, p)
  | n + 1, s, p =>
    match p.peek with
    | none => some (s, p)
    | some c =>
      if p.column = indent then do
        let blank := isBlank c
        let joint :=
          if !literal && s.lineBreak.head? == some '\n' && !s.blank && !blank then
            if s.breaks.isEmpty then [' '] else []
          else s.lineBreak
        let line := p.rest.takeWhile fun c => !isBreak c
        let p := p.skips line.length
        let lineBreak := p.breakText
        let (breaks, _, p) ← blockBreaks? indent p.rest.length 0 [] p.skipLine
        blockLines? literal indent n
          ⟨s.done ++ joint ++ s.breaks ++ line, lineBreak, breaks, blank⟩ p
      else some (s, p)

/-- A block scalar behind its mark, below a block with the given indentation. -/
def blockScalar? (literal : Bool) (parent : Int) (p : Place) : Option (List Char × Place) := do
  let (chomping, increment, p) ← blockHeader? p
  let known := match increment with
    | some k => (max parent 0).toNat + k
    | none => 0
  let (breaks, widest, p) ← blockBreaks? known (p.rest.length + 1) 0 [] p
  let indent := if known = 0 then max widest (max (parent + 1) 1).toNat else known
  let (s, p) ← blockLines? literal indent (p.rest.length + 1) ⟨[], [], breaks, false⟩ p
  let tail := match chomping with
    | .strip => []
    | .clip => s.lineBreak
    | .keep => s.lineBreak ++ s.breaks
  some (s.done ++ tail, p)

end ColumnMetadata.Yaml
