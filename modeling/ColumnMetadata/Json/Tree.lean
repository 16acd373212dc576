import ColumnMetadata.Json.Scan
import ColumnMetadata.Value.Basic

/-!
# JSON texts as trees

A JSON text as it was written: members of an object in order with repeated keys kept, strings and
numbers that may have no value. From a tree one reads either a free-form value (`Tree.toValue?`), in
which every fault counts and nesting is limited, or a record (`Json.Record`), which passes over the
members that it does not know.
-/

namespace ColumnMetadata.Json

/-- A JSON text. -/
inductive Tree where
  | null
  | bool (value : Bool)
  | number (value : Option Number)
  | string (text : Option String)
  | array (items : List Tree)
  | object (members : List (Option String × Tree))
deriving Inhabited

mutual

/-- The tree at the start of a list of lexemes, and what follows it. The number bounds the steps. -/
def tree? : Nat → List Lexeme → Option (Tree × List Lexeme)
  | 0, _ => none
  | _ + 1, .null :: ls => some (.null, ls)
  | _ + 1, .bool b :: ls => some (.bool b, ls)
  | _ + 1, .number x :: ls => some (.number x, ls)
  | _ + 1, .string s :: ls => some (.string s, ls)
  | _ + 1, .openBracket :: .closeBracket :: ls => some (.array [], ls)
  | n + 1, .openBracket :: ls => do
    let (items, ls) ← items? n ls
    some (.array items, ls)
  | _ + 1, .openBrace :: .closeBrace :: ls => some (.object [], ls)
  | n + 1, .openBrace :: ls => do
    let (members, ls) ← members? n ls
    some (.object members, ls)
  | _ + 1, _ => none

/-- One or more items up to the closing bracket. -/
def items? : Nat → List Lexeme → Option (List Tree × List Lexeme)
  | 0, _ => none
  | n + 1, ls => do
    let (t, ls) ← tree? n ls
    match ls with
    | .comma :: ls => do
      let (ts, ls) ← items? n ls
      some (t :: ts, ls)
    | .closeBracket :: ls => some ([t], ls)
    | _ => none

/-- One or more members up to the closing brace. -/
def members? : Nat → List Lexeme → Option (List (Option String × Tree) × List Lexeme)
  | n + 1, .string k :: .colon :: ls => do
    let (t, ls) ← tree? n ls
    match ls with
    | .comma :: ls => do
      let (ms, ls) ← members? n ls
      some ((k, t) :: ms, ls)
    | .closeBrace :: ls => some ([(k, t)], ls)
    | _ => none
  | _, _ => none

end

def read? (cs : List Char) : Option Tree := do
  let ls ← scan? cs
  match tree? (2 * ls.length + 2) ls with
  | some (t, []) => some t
  | _ => none

/-- How many containers may be open at once. -/
def maxDepth : Nat := 127

namespace Tree

mutual

/-- The value that a tree is, if all its strings and numbers have one and at most `room` containers
are open at once. A key that comes again takes its last value in its first place. -/
def toValue? : Nat → Tree → Option Value
  | _, null => some .null
  | _, bool b => some (.bool b)
  | _, number x => x.map .number
  | _, string s => s.map .string
  | 0, array _ => none
  | room + 1, array ts => (toItems? room ts).map .array
  | 0, object _ => none
  | room + 1, object ms => (toPairs? room ms).map fun ps => .object (Entries.ofPairs ps)

def toItems? : Nat → List Tree → Option (List Value)
  | _, [] => some []
  | room, t :: ts => do
    let v ← toValue? room t
    let vs ← toItems? room ts
    some (v :: vs)

def toPairs? : Nat → List (Option String × Tree) → Option (List (String × Value))
  | _, [] => some []
  | room, (k, t) :: ms => do
    let k ← k
    let v ← toValue? room t
    let ps ← toPairs? room ms
    some ((k, v) :: ps)

end

end Tree

def value? (cs : List Char) : Option Value := (read? cs).bind (Tree.toValue? maxDepth)

end ColumnMetadata.Json
