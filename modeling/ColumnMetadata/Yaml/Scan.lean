import ColumnMetadata.Yaml.Token

/-!
# Scanning YAML

A YAML text as tokens, with the blocks that only indentation shows made explicit. A mapping's key is
recognised by the mark behind it: until then every token that could be a key is remembered, one for
each open flow collection, and the token for the key is put in front of it afterwards. A remembered
key is forgotten at the end of its line or after 1024 characters; if it stands where only a key can
stand, that is an error.
-/

namespace ColumnMetadata.Yaml

/-- A place where a key may have begun. -/
structure KeyStart where
  /-- Nothing but a key can begin there. -/
  required : Bool
  /-- The count of tokens in front of it. -/
  position : Nat
  index : Nat
  line : Nat
  column : Nat

/-- The state of a scan. -/
structure Scanner where
  place : Place
  /-- The column of the innermost block, and those around it; -1 outside all blocks. -/
  indent : Int
  indents : List Int
  /-- How many flow collections are open. -/
  flow : Nat
  /-- The key that may have begun in each open flow collection, the innermost first, and last the
  one outside. -/
  keys : List (Option KeyStart)
  /-- Whether a key may begin here. -/
  keyAllowed : Bool
  tokens : List Token

namespace Scanner

def start (cs : List Char) : Scanner :=
  ⟨⟨cs, 0, 0, 0⟩, -1, [], 0, [none], true, []⟩

def push (s : Scanner) (t : Token) : Scanner := { s with tokens := s.tokens ++ [t] }

def mark (s : Scanner) (t : Token) (width : Nat) : Scanner :=
  { s.push t with place := s.place.skips width }

def insertAt (s : Scanner) (position : Nat) (t : Token) : Scanner :=
  { s with tokens := s.tokens.take position ++ t :: s.tokens.drop position }

/-! ## Blocks -/

/-- Opens a block at a column, if it is deeper than the innermost one. -/
def openBlock (s : Scanner) (column : Nat) (position : Nat) (t : Token) : Scanner :=
  if s.flow = 0 ∧ s.indent < column then
    { s.insertAt position t with indents := s.indent :: s.indents, indent := column }
  else s

/-- Closes the blocks that are deeper than a column; the list holds the blocks around. -/
def closeBlocks (column : Int) : List Int → Scanner → Scanner
  | outer, s =>
    if s.indent ≤ column then s
    else
      match outer with
      | [] => s
      | i :: outer => closeBlocks column outer { s.push .blockEnd with indent := i, indents := outer }

/-- Closes the blocks that are deeper than a column, outside flow collections. -/
def closeTo (s : Scanner) (column : Int) : Scanner :=
  if s.flow = 0 then closeBlocks column s.indents s else s

/-! ## Keys -/

/-- Forgets the key of the innermost collection, which must not be required. -/
def dropKey? (s : Scanner) : Option Scanner :=
  match s.keys with
  | some k :: keys => if k.required then none else some { s with keys := none :: keys }
  | _ => some s

/-- Remembers that a key may begin here. -/
def saveKey? (s : Scanner) : Option Scanner :=
  if s.keyAllowed then do
    let s ← s.dropKey?
    let k : KeyStart := ⟨s.flow = 0 ∧ s.indent = s.place.column, s.tokens.length,
      s.place.index, s.place.line, s.place.column⟩
    some { s with keys := some k :: s.keys.tail }
  else some s

/-- Whether a key has been left behind. -/
def isStale (p : Place) (k : KeyStart) : Bool := k.line < p.line || k.index + 1024 < p.index

def dropStale? (s : Scanner) : Option Scanner := do
  let keys ← s.keys.mapM fun k =>
    match k with
    | some k => if isStale s.place k then if k.required then none else some none else some (some k)
    | none => some none
  some { s with keys }

/-! ## Blanks -/

/-- Passes over blanks, comments and line breaks; the number bounds the lines. Outside flow
collections a tab does not count as a blank where a key may begin. -/
def skipBlanks : Nat → Scanner → Scanner
  | 0, s => s
  | n + 1, s =>
    let tabs := s.flow ≠ 0 ∨ !s.keyAllowed
    let p := s.place.skipWhile fun c => c == ' ' || (tabs && c == '\t')
    let p := if p.sees '#' then p.skipWhile fun c => !isBreak c else p
    if p.peek.any isBreak then
      skipBlanks n { s with place := p.skipLine, keyAllowed := s.keyAllowed || s.flow == 0 }
    else { s with place := p }

/-! ## Marks -/

def openFlow? (s : Scanner) (t : Token) : Option Scanner := do
  let s ← s.saveKey?
  some { s.mark t 1 with flow := s.flow + 1, keys := none :: s.keys, keyAllowed := true }

def closeFlow? (s : Scanner) (t : Token) : Option Scanner := do
  let s ← s.dropKey?
  let s := if s.flow = 0 then s else { s with flow := s.flow - 1, keys := s.keys.tail }
  some { s.mark t 1 with keyAllowed := false }

def blockEntry? (s : Scanner) : Option Scanner := do
  let s ←
    if s.flow = 0 then
      if s.keyAllowed then
        some (s.openBlock s.place.column s.tokens.length .blockSequenceStart)
      else none
    else some s
  let s ← s.dropKey?
  some { s.mark .blockEntry 1 with keyAllowed := true }

def keyMark? (s : Scanner) : Option Scanner := do
  let s ←
    if s.flow = 0 then
      if s.keyAllowed then some (s.openBlock s.place.column s.tokens.length .blockMappingStart)
      else none
    else some s
  let s ← s.dropKey?
  some { s.mark .key 1 with keyAllowed := s.flow = 0 }

/-- The mark of a value: what was remembered becomes its key. -/
def valueMark? (s : Scanner) : Option Scanner :=
  match s.keys with
  | some k :: keys =>
    let s := (s.insertAt k.position .key).openBlock k.column k.position .blockMappingStart
    some { s.mark .value 1 with keys := none :: keys, keyAllowed := false }
  | _ => do
    let s ←
      if s.flow = 0 then
        if s.keyAllowed then some (s.openBlock s.place.column s.tokens.length .blockMappingStart)
        else none
      else some s
    some { s.mark .value 1 with keyAllowed := s.flow = 0 }

/-- A mark at the start of a line that ends all blocks. -/
def outermost? (s : Scanner) : Option Scanner := do
  let s ← (s.closeTo (-1)).dropKey?
  some { s with keyAllowed := false }

def word? (s : Scanner) (read : Place → Option (Token × Place)) : Option Scanner := do
  let s ← s.saveKey?
  let (t, p) ← read s.place
  some { s.push t with place := p, keyAllowed := false }

def plainWord? (s : Scanner) : Option Scanner := do
  let s ← s.saveKey?
  let (text, broken, p) ←
    plain? (s.flow ≠ 0) (s.indent + 1).toNat (2 * s.place.rest.length + 1) [] .none s.place
  some { s.push (.scalar text true) with place := p, keyAllowed := broken }

def blockWord? (s : Scanner) (literal : Bool) : Option Scanner := do
  let s ← s.dropKey?
  let (text, p) ← blockScalar? literal s.indent s.place.skip
  some { s.push (.scalar text false) with place := p, keyAllowed := true }

/-- The characters that mean something else than the beginning of a plain scalar. -/
def indicators : List Char :=
  [',', '[', ']', '{', '}', '#', '&', '*', '!', '|', '>', '\'', '"', '%', '@', '\x60']

/-- Whether a plain scalar may begin here. -/
def plainBegins (s : Scanner) (c : Char) : Bool :=
  let next := s.place.ahead 1
  if ['-', '?', ':'].contains c then
    (c == '-' && !(next.any isBlank)) || (s.flow == 0 && c != '-' && !endsWord next) ||
      (c == '?' && !endsWord next)
  else
    !indicators.contains c && !isBlank c && !isBreak c

/-- Reads the next token; `none` when the text is not YAML. -/
def token? (s : Scanner) (c : Char) : Option Scanner :=
  let next := s.place.ahead 1
  if s.place.column = 0 ∧ c = '%' then do
    let s ← s.outermost?
    let (t, p) ← directive? s.place
    some { s.push t with place := p }
  else if s.place.seesDocumentMark then
    s.outermost?.map fun s => s.mark (if c = '-' then .documentStart else .documentEnd) 3
  else if c = '[' then s.openFlow? .flowSequenceStart
  else if c = '{' then s.openFlow? .flowMappingStart
  else if c = ']' then s.closeFlow? .flowSequenceEnd
  else if c = '}' then s.closeFlow? .flowMappingEnd
  else if c = ',' then
    s.dropKey?.map fun s => { s.mark .flowEntry 1 with keyAllowed := true }
  else if c = '-' ∧ endsWord next then s.blockEntry?
  else if c = '?' ∧ endsWord next then s.keyMark?
  else if c = ':' ∧ (s.flow ≠ 0 ∨ endsWord next) then s.valueMark?
  else if c = '*' then s.word? fun p => (name? p.skip).map fun (n, p) => (.alias n, p)
  else if c = '&' then s.word? fun p => (name? p.skip).map fun (n, p) => (.anchor n, p)
  else if c = '!' then
    s.word? fun p => (tag? (s.flow ≠ 0) p).map fun (h, p) => (.tag h, p)
  else if c = '|' ∧ s.flow = 0 then s.blockWord? true
  else if c = '>' ∧ s.flow = 0 then s.blockWord? false
  else if c = '\'' ∨ c = '"' then
    s.word? fun p =>
      (quoted? (c = '\'') (p.rest.length + 1) [] p.skip).map fun (t, p) => (.scalar t false, p)
  else if s.plainBegins c then s.plainWord?
  else none

/-- The end of the text ends all blocks. -/
def finish? (s : Scanner) : Option (List Token) := do
  let s := if s.place.column = 0 then s
    else { s with place := { s.place with column := 0, line := s.place.line + 1 } }
  let s ← s.outermost?
  some (s.tokens ++ [.streamEnd])

/-- Reads tokens up to the end of the text; the number bounds their count. -/
def run? : Nat → Scanner → Option (List Token)
  | 0, _ => none
  | n + 1, s => do
    let s := skipBlanks (s.place.rest.length + 1) s
    let s ← s.dropStale?
    let s := s.closeTo s.place.column
    match s.place.peek with
    | none => s.finish?
    | some c => do
      let s ← s.token? c
      run? n s

end Scanner

/-- The tokens of a text. A byte order mark in front does not count. -/
def scan? (cs : List Char) : Option (List Token) :=
  if cs.all isAllowed then
    let start := Scanner.start cs
    let start := if start.place.sees '\ufeff' then
      { start with place := start.place.skip } else start
    Scanner.run? (cs.length + 1) start
  else none

end ColumnMetadata.Yaml
