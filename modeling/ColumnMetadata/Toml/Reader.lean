import ColumnMetadata.Toml.Scalar

/-!
# Reading TOML documents

A document is read line by line: comments, headers in brackets, and assignments. Values in brackets
and braces may be nested less than 80 deep, and a dotted key has fewer than 80 parts.
-/

namespace ColumnMetadata.Toml

/-- The limit on nesting and on the parts of a key. -/
def limit : Nat := 80

def skipBlanks (cs : List Char) : List Char := cs.dropWhile isBlank

/-- What follows a line break. -/
def lineBreak? : List Char → Option (List Char)
  | '\n' :: cs => some cs
  | '\r' :: '\n' :: cs => some cs
  | _ => none

/-- What follows the end of a line: a break, or the end of the text. -/
def lineEnd? (cs : List Char) : Option (List Char) :=
  match cs with
  | [] => some []
  | cs => lineBreak? cs

/-- Passes over a comment, if one begins here, up to the end of its line. -/
def skipComment : List Char → List Char
  | '#' :: cs => cs.dropWhile isPrintable
  | cs => cs

/-- What follows blanks, a comment and the end of the line. -/
def lineRest? (cs : List Char) : Option (List Char) :=
  lineEnd? (skipComment (skipBlanks cs))

/-- Passes over blanks, comments and line breaks; the number bounds the steps. A comment has to end
with a line break. -/
def skipLines? : Nat → List Char → Option (List Char)
  | 0, cs => some cs
  | n + 1, cs =>
    match skipBlanks cs with
    | '#' :: cs => (lineBreak? (cs.dropWhile isPrintable)).bind (skipLines? n)
    | cs =>
      match lineBreak? cs with
      | some rest => skipLines? n rest
      | none => some cs

/-! ## Keys -/

def isBareKey (c : Char) : Bool := c.isAlphanum || c == '_' || c == '-'

/-- One part of a key: bare or a string on one line. -/
def keyPart? (cs : List Char) : Option (String × List Char) :=
  match cs with
  | '"' :: rest => (basicBody? rest).map fun (s, rest) => (String.ofList s, rest)
  | '\'' :: rest => (literalBody? rest).map fun (s, rest) => (String.ofList s, rest)
  | _ =>
    let part := cs.takeWhile isBareKey
    if part.isEmpty then none else some (String.ofList part, cs.dropWhile isBareKey)

/-- A key: parts with points and blanks between them. The number bounds the count of parts. -/
def keyParts? : Nat → List Char → Option (List String × List Char)
  | 0, _ => none
  | n + 1, cs => do
    let (part, rest) ← keyPart? (skipBlanks cs)
    match skipBlanks rest with
    | '.' :: rest => do
      let (parts, rest) ← keyParts? n rest
      some (part :: parts, rest)
    | rest => some ([part], rest)

/-- A key with fewer parts than the limit, and what follows it and its blanks. -/
def key? (cs : List Char) : Option (List String × List Char) := keyParts? (limit - 1) cs

/-! ## Values -/

mutual

/-- A value. The first number bounds the steps, the second counts the containers that may still be
opened. -/
def value? : Nat → Nat → List Char → Option (Item × List Char)
  | 0, _, _ => none
  | n + 1, room, '[' :: cs =>
    if room = 0 then none
    else do
      let cs ← skipLines? cs.length cs
      match cs with
      | ']' :: rest => some (.array [], rest)
      | _ => do
        let (items, rest) ← items? n (room - 1) cs
        some (.array items, rest)
  | n + 1, room, '{' :: cs =>
    if room = 0 then none
    else
      match skipBlanks cs with
      | '}' :: rest => some (.table .inline [], rest)
      | cs => do
        let (pairs, rest) ← pairs? n (room - 1) cs
        let entries ← ofPairs pairs []
        some (.table .inline entries, rest)
  | _ + 1, _, cs => scalar? cs

/-- One or more items up to the closing bracket; a comma may stand behind the last one. -/
def items? : Nat → Nat → List Char → Option (List Item × List Char)
  | 0, _, _ => none
  | n + 1, room, cs => do
    let (v, cs) ← value? n room cs
    let cs ← skipLines? cs.length cs
    match cs with
    | ']' :: rest => some ([v], rest)
    | ',' :: rest => do
      let cs ← skipLines? rest.length rest
      match cs with
      | ']' :: rest => some ([v], rest)
      | _ => do
        let (vs, rest) ← items? n room cs
        some (v :: vs, rest)
    | _ => none

/-- One or more assignments up to the closing brace, all on one line. -/
def pairs? : Nat → Nat → List Char → Option (List (List String × Item) × List Char)
  | 0, _, _ => none
  | n + 1, room, cs => do
    let (key, cs) ← key? cs
    match cs with
    | '=' :: cs => do
      let (v, cs) ← value? n room (skipBlanks cs)
      match skipBlanks cs with
      | '}' :: rest => some ([(key, v)], rest)
      | ',' :: rest => do
        let (ps, rest) ← pairs? n room rest
        some ((key, v) :: ps, rest)
      | _ => none
    | _ => none

end

/-! ## Documents -/

/-- Reads the lines of a document; the number bounds their count. -/
def lines? : Nat → Document → List Char → Option Document
  | 0, d, _ => some d
  | n + 1, d, cs =>
    match skipBlanks cs with
    | [] => some d
    | '#' :: cs => (lineEnd? (cs.dropWhile isPrintable)).bind (lines? n d)
    | '[' :: '[' :: cs => do
      let (key, cs) ← key? cs
      match cs with
      | ']' :: ']' :: cs => do
        let d ← d.openRepeated key
        let rest ← lineRest? cs
        lines? n d rest
      | _ => none
    | '[' :: cs => do
      let (key, cs) ← key? cs
      match cs with
      | ']' :: cs => do
        let d ← d.openTable key
        let rest ← lineRest? cs
        lines? n d rest
      | _ => none
    | c :: cs =>
      match lineBreak? (c :: cs) with
      | some rest => lines? n d rest
      | none => do
        let (key, cs) ← key? (c :: cs)
        match cs with
        | '=' :: cs => do
          let cs := skipBlanks cs
          let (v, cs) ← value? (2 * cs.length + 2) (limit - 1) cs
          let rest ← lineRest? cs
          let d ← d.add key v
          lines? n d rest
        | _ => none

/-- The table that a text is. A byte order mark may stand in front. -/
def read? (cs : List Char) : Option Table := do
  let cs := match cs with
    | '\ufeff' :: rest => rest
    | cs => cs
  let d ← lines? (cs.length + 1) .empty cs
  d.finish

/-! ## Reading records -/

/-- What a table or an array says about the fields of a record, each given by its name: the items
under the names, or the items in their order. Names that are no field are passed over. -/
def Item.record? (names : List String) : Item → Option (List (Option Item))
  | .table _ entries => some (names.map fun n => Entries.find? n entries)
  | .array items => some ((items.map some ++ names.map fun _ => none).take names.length)
  | .tables all =>
    some ((all.map (fun t => some (Item.table .header t)) ++ names.map fun _ => none).take names.length)
  | _ => none

def Item.string? : Item → Option String
  | .string s => some s
  | _ => none

def Item.bool? : Item → Option Bool
  | .bool b => some b
  | _ => none

def Item.natural? : Item → Option Nat
  | .integer i => if 0 ≤ i then some i.toNat else none
  | _ => none

/-- Whether an item is an array or a table without content. -/
def Item.isVacant : Item → Bool
  | .array items => items.isEmpty
  | .table _ entries => entries.isEmpty
  | .tables all => all.isEmpty
  | _ => false

/-- One of a set of names: the name itself, or a table with nothing under the name. -/
def Item.choice? {α : Type} (ofName? : String → Option α) : Item → Option α
  | .string s => ofName? s
  | .table _ [(k, v)] => if v.isVacant then ofName? k else none
  | _ => none

end ColumnMetadata.Toml
