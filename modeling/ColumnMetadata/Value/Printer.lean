import ColumnMetadata.Value.Basic

/-!
# Printing values

Two printed forms of a value, both JSON. The compact form has no blanks. The pretty form puts each
item and each field on a line of its own, two spaces deeper than its container, and writes an empty
container without a line break. In both, a string escapes the quote, the backslash and the controls
below the space, and leaves everything else as it is.
-/

namespace ColumnMetadata.Value

def hexDigit (n : Nat) : Char := Nat.digitChar n

def escapeChar (c : Char) : List Char :=
  match c with
  | '"' => ['\\', '"']
  | '\\' => ['\\', '\\']
  | '\x08' => ['\\', 'b']
  | '\x0c' => ['\\', 'f']
  | '\n' => ['\\', 'n']
  | '\r' => ['\\', 'r']
  | '\t' => ['\\', 't']
  | c =>
    if c.toNat < 32 then ['\\', 'u', '0', '0', hexDigit (c.toNat / 16), hexDigit (c.toNat % 16)]
    else [c]

def escape : List Char → List Char
  | [] => []
  | c :: cs => escapeChar c ++ escape cs

def quote (s : String) : List Char :=
  '"' :: (escape s.toList ++ ['"'])

/-- A printed leaf; containers have their own printers. -/
def leaf : Value → List Char
  | null => ['n', 'u', 'l', 'l']
  | bool true => ['t', 'r', 'u', 'e']
  | bool false => ['f', 'a', 'l', 's', 'e']
  | number n => n.text
  | string s => quote s
  | array _ => []
  | object _ => []

/-! ## The compact form -/

mutual

def compact : Value → List Char
  | array [] => ['[', ']']
  | array (v :: vs) => '[' :: (compact v ++ compactItems vs ++ [']'])
  | object [] => ['{', '}']
  | object ((k, v) :: fs) => '{' :: (quote k ++ ':' :: (compact v ++ compactFields fs ++ ['}']))
  | v => leaf v

/-- Items behind the first, each behind a comma. -/
def compactItems : List Value → List Char
  | [] => []
  | v :: vs => ',' :: (compact v ++ compactItems vs)

/-- Fields behind the first, each behind a comma. -/
def compactFields : List (String × Value) → List Char
  | [] => []
  | (k, v) :: fs => ',' :: (quote k ++ ':' :: (compact v ++ compactFields fs))

end

/-! ## The pretty form -/

/-- A line break and the indentation of a level. -/
def newline (level : Nat) : List Char := '\n' :: List.replicate (2 * level) ' '

mutual

/-- The pretty form of a value that stands at a level of nesting. -/
def pretty (level : Nat) : Value → List Char
  | array [] => ['[', ']']
  | array (v :: vs) =>
    '[' :: (newline (level + 1) ++ pretty (level + 1) v ++ prettyItems (level + 1) vs ++
      newline level ++ [']'])
  | object [] => ['{', '}']
  | object ((k, v) :: fs) =>
    '{' :: (newline (level + 1) ++ quote k ++ ':' :: ' ' :: (pretty (level + 1) v ++
      prettyFields (level + 1) fs ++ newline level ++ ['}']))
  | v => leaf v

/-- Items behind the first, each behind a comma on a line of its own. -/
def prettyItems (level : Nat) : List Value → List Char
  | [] => []
  | v :: vs => ',' :: (newline level ++ pretty level v ++ prettyItems level vs)

/-- Fields behind the first, each behind a comma on a line of its own. -/
def prettyFields (level : Nat) : List (String × Value) → List Char
  | [] => []
  | (k, v) :: fs =>
    ',' :: (newline level ++ quote k ++ ':' :: ' ' :: (pretty level v ++ prettyFields level fs))

end

def compactText (v : Value) : String := String.ofList (compact v)

def prettyText (v : Value) : String := String.ofList (pretty 0 v)

end ColumnMetadata.Value
