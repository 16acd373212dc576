import ColumnMetadata.Literal.Scan
import ColumnMetadata.Toml.Table

/-!
# TOML strings, numbers and dates

The scalars of TOML 1.0. Each reader takes the characters from a place on and gives the scalar with
what follows it. Integers have 64 bits and a sign; floats and dates are checked for their form.
-/

namespace ColumnMetadata.Toml

open Literal (hexValue?)

def isBlank (c : Char) : Bool := c == ' ' || c == '\t'

/-- Characters that may stand in comments and, escapes and quotes apart, in strings: everything but
the controls, of which the tab alone is allowed. -/
def isPrintable (c : Char) : Bool := c == '\t' || (32 ≤ c.toNat && c.toNat != 127)

/-! ## Strings -/

def ofCode? (n : Nat) : Option Char :=
  if n < 0xD800 ∨ (0xE000 ≤ n ∧ n < 0x110000) then some (Char.ofNat n) else none

def hexNumber? (ds : List Char) : Option Nat :=
  ds.foldlM (fun n d => (hexValue? d).map fun v => n * 16 + v) 0

/-- The character that a backslash and this character stand for. -/
def escaped? (c : Char) : Option Char :=
  match c with
  | 'b' => some '\x08'
  | 't' => some '\t'
  | 'n' => some '\n'
  | 'f' => some '\x0c'
  | 'r' => some '\r'
  | '"' => some '"'
  | '\\' => some '\\'
  | _ => none

/-- A character in front of the rest of a string, if both are there. -/
def consTo? (c : Option Char) (r : Option (List Char × List Char)) :
    Option (List Char × List Char) := do
  let c ← c
  let (cs, rest) ← r
  some (c :: cs, rest)

/-- The rest of a string in double quotes. -/
def basicBody? : List Char → Option (List Char × List Char)
  | [] => none
  | '"' :: cs => some ([], cs)
  | '\\' :: 'u' :: a :: b :: c :: d :: cs =>
    consTo? ((hexNumber? [a, b, c, d]).bind ofCode?) (basicBody? cs)
  | '\\' :: 'U' :: a :: b :: c :: d :: e :: f :: g :: h :: cs =>
    consTo? ((hexNumber? [a, b, c, d, e, f, g, h]).bind ofCode?) (basicBody? cs)
  | '\\' :: e :: cs => consTo? (escaped? e) (basicBody? cs)
  | c :: cs => consTo? (if isPrintable c && c != '\\' then some c else none) (basicBody? cs)

/-- The rest of a string in single quotes. -/
def literalBody? : List Char → Option (List Char × List Char)
  | [] => none
  | '\'' :: cs => some ([], cs)
  | c :: cs => consTo? (if isPrintable c then some c else none) (literalBody? cs)

/-- Whether only blanks stand in front of a line break. -/
def lineEnds (cs : List Char) : Bool :=
  match cs.dropWhile isBlank with
  | '\n' :: _ => true
  | '\r' :: '\n' :: _ => true
  | _ => false

/-- The rest of a string in three double quotes. After an escaped line break, blanks and line breaks
are passed over. Up to two quotes may stand in front of the closing ones. -/
def longBasicBody? (skipping : Bool) : List Char → Option (List Char × List Char)
  | [] => none
  | '"' :: '"' :: '"' :: '"' :: '"' :: cs => some (['"', '"'], cs)
  | '"' :: '"' :: '"' :: '"' :: cs => some (['"'], cs)
  | '"' :: '"' :: '"' :: cs => some ([], cs)
  | '\r' :: '\n' :: cs =>
    if skipping then longBasicBody? true cs else consTo? (some '\n') (longBasicBody? false cs)
  | '\n' :: cs =>
    if skipping then longBasicBody? true cs else consTo? (some '\n') (longBasicBody? false cs)
  | '\\' :: 'u' :: a :: b :: c :: d :: cs =>
    consTo? ((hexNumber? [a, b, c, d]).bind ofCode?) (longBasicBody? false cs)
  | '\\' :: 'U' :: a :: b :: c :: d :: e :: f :: g :: h :: cs =>
    consTo? ((hexNumber? [a, b, c, d, e, f, g, h]).bind ofCode?) (longBasicBody? false cs)
  | '\\' :: e :: cs =>
    if lineEnds (e :: cs) then longBasicBody? true (e :: cs)
    else consTo? (escaped? e) (longBasicBody? false cs)
  | c :: cs =>
    if skipping && isBlank c then longBasicBody? true cs
    else consTo? (if isPrintable c && c != '\\' then some c else none) (longBasicBody? false cs)

/-- The rest of a string in three single quotes. -/
def longLiteralBody? : List Char → Option (List Char × List Char)
  | [] => none
  | '\'' :: '\'' :: '\'' :: '\'' :: '\'' :: cs => some (['\'', '\''], cs)
  | '\'' :: '\'' :: '\'' :: '\'' :: cs => some (['\''], cs)
  | '\'' :: '\'' :: '\'' :: cs => some ([], cs)
  | '\r' :: '\n' :: cs => consTo? (some '\n') (longLiteralBody? cs)
  | '\n' :: cs => consTo? (some '\n') (longLiteralBody? cs)
  | c :: cs => consTo? (if isPrintable c then some c else none) (longLiteralBody? cs)

/-- A line break directly behind the opening quotes of a long string does not count. -/
def dropFirstBreak : List Char → List Char
  | '\n' :: cs => cs
  | '\r' :: '\n' :: cs => cs
  | cs => cs

/-- A string of any of the four forms. -/
def string? : List Char → Option (String × List Char)
  | '"' :: '"' :: '"' :: cs =>
    (longBasicBody? false (dropFirstBreak cs)).map fun (s, rest) => (String.ofList s, rest)
  | '"' :: cs => (basicBody? cs).map fun (s, rest) => (String.ofList s, rest)
  | '\'' :: '\'' :: '\'' :: cs =>
    (longLiteralBody? (dropFirstBreak cs)).map fun (s, rest) => (String.ofList s, rest)
  | '\'' :: cs => (literalBody? cs).map fun (s, rest) => (String.ofList s, rest)
  | _ => none

/-! ## Numbers -/

/-- A run of digits with single low lines between them, without the low lines; `none` when a low
line is not followed by a digit. What follows the run is given too. -/
def digitsTail? (isDigit : Char → Bool) : List Char → Option (List Char × List Char)
  | [] => some ([], [])
  | ['_'] => none
  | '_' :: d :: cs => if isDigit d then consTo? (some d) (digitsTail? isDigit cs) else none
  | c :: cs =>
    if isDigit c then consTo? (some c) (digitsTail? isDigit cs) else some ([], c :: cs)

/-- One or more digits with low lines between them. -/
def digits? (isDigit : Char → Bool) : List Char → Option (List Char × List Char)
  | c :: cs => if isDigit c then consTo? (some c) (digitsTail? isDigit cs) else none
  | [] => none

/-- Decimal digits of an integer: a zero stands alone. -/
def decimalDigits? : List Char → Option (List Char × List Char)
  | '0' :: cs => some (['0'], cs)
  | cs => digits? Char.isDigit cs

/-- Whether a number has a minus sign, and what follows its sign. -/
def sign : List Char → Bool × List Char
  | '-' :: cs => (true, cs)
  | '+' :: cs => (false, cs)
  | cs => (false, cs)

def ofDigits (base : Nat) (ds : List Char) : Nat :=
  ds.foldl (fun n d => n * base + (hexValue? d).getD 0) 0

/-- An integer of 64 bits. -/
def integer64? (i : Int) : Option Item :=
  if -0x8000000000000000 ≤ i ∧ i < 0x8000000000000000 then some (.integer i) else none

def basedInteger? (base : Nat) (isDigit : Char → Bool) (cs : List Char) :
    Option (Item × List Char) := do
  let (ds, rest) ← digits? isDigit cs
  let i ← integer64? (ofDigits base ds)
  some (i, rest)

def integer? : List Char → Option (Item × List Char)
  | '0' :: 'x' :: cs => basedInteger? 16 (fun c => (hexValue? c).isSome) cs
  | '0' :: 'o' :: cs => basedInteger? 8 (fun c => '0' ≤ c && c ≤ '7') cs
  | '0' :: 'b' :: cs => basedInteger? 2 (fun c => c == '0' || c == '1') cs
  | cs => do
    let (negative, cs) := sign cs
    let (ds, rest) ← decimalDigits? cs
    let n := ofDigits 10 ds
    let i ← integer64? (if negative then -(n : Int) else n)
    some (i, rest)

/-- The exponent of a float: its mark, a sign and digits. -/
def exponent? : List Char → Option ((Bool × List Char) × List Char)
  | c :: cs =>
    if c = 'e' ∨ c = 'E' then do
      let (negative, cs) := sign cs
      let (ds, rest) ← digits? Char.isDigit cs
      some ((negative, ds), rest)
    else none
  | [] => none

/-- Whether a positive float is beyond every finite number. -/
def overflows (whole fraction : List Char) (exponent : Option (Bool × List Char)) : Bool :=
  let digits := ofDigits 10 (whole ++ fraction)
  match exponent with
  | some (false, ds) =>
    digits != 0 && (5 < (ds.dropWhile (· == '0')).length ||
      (Binary64.ofFraction (digits * Nat.pow 10 (ofDigits 10 ds)) (Nat.pow 10 fraction.length)).isNone)
  | _ => digits != 0 && (Binary64.ofFraction digits (Nat.pow 10 fraction.length)).isNone

/-- What a float reader found: no float, a float with something wrong in it, or a float. -/
inductive FloatResult where
  | absent
  | broken
  | found (rest : List Char)

/-- A float with digits. Behind the point digits have to follow, and behind the exponent mark too. -/
def decimalFloat (cs : List Char) : FloatResult :=
  let (negative, body) := sign cs
  match decimalDigits? body with
  | none => .absent
  | some (whole, '.' :: cs) =>
    match digits? Char.isDigit cs with
    | none => .broken
    | some (fraction, c :: cs) =>
      if c = 'e' ∨ c = 'E' then
        match exponent? (c :: cs) with
        | none => .broken
        | some (e, rest) =>
          if !negative && overflows whole fraction (some e) then .absent else .found rest
      else if !negative && overflows whole fraction none then .absent
      else .found (c :: cs)
    | some (fraction, []) =>
      if !negative && overflows whole fraction none then .absent else .found []
  | some (whole, c :: cs) =>
    if c = 'e' ∨ c = 'E' then
      match exponent? (c :: cs) with
      | none => .broken
      | some (e, rest) =>
        if !negative && overflows whole [] (some e) then .absent else .found rest
    else .absent
  | some (_, []) => .absent

def specialFloat? (cs : List Char) : Option (List Char) :=
  match (sign cs).2 with
  | 'i' :: 'n' :: 'f' :: rest => some rest
  | 'n' :: 'a' :: 'n' :: rest => some rest
  | _ => none

/-! ## Dates and times -/

def twoDigits? : List Char → Option (Nat × List Char)
  | a :: b :: cs => if a.isDigit && b.isDigit then some (ofDigits 10 [a, b], cs) else none
  | _ => none

def daysIn (year month : Nat) : Nat :=
  if month = 2 then
    if year % 4 = 0 ∧ (year % 100 ≠ 0 ∨ year % 400 = 0) then 29 else 28
  else if month = 4 ∨ month = 6 ∨ month = 9 ∨ month = 11 then 30 else 31

def date? : List Char → Option (List Char)
  | a :: b :: c :: d :: '-' :: cs =>
    if [a, b, c, d].all Char.isDigit then
      match twoDigits? cs with
      | some (month, '-' :: cs) => do
        let (day, rest) ← twoDigits? cs
        if 1 ≤ month ∧ month ≤ 12 ∧ 1 ≤ day ∧ day ≤ daysIn (ofDigits 10 [a, b, c, d]) month then
          some rest
        else none
      | _ => none
    else none
  | _ => none

def time? (cs : List Char) : Option (List Char) :=
  match twoDigits? cs with
  | some (hour, ':' :: cs) =>
    match twoDigits? cs with
    | some (minute, ':' :: cs) => do
      let (second, rest) ← twoDigits? cs
      if 23 < hour ∨ 59 < minute ∨ 60 < second then none
      else
        match rest with
        | '.' :: c :: more => if c.isDigit then some (more.dropWhile Char.isDigit) else some rest
        | _ => some rest
    | _ => none
  | _ => none

/-- Passes over the offset of a time, if there is one. -/
def dropOffset (cs : List Char) : List Char :=
  match cs with
  | 'Z' :: rest => rest
  | 'z' :: rest => rest
  | c :: rest =>
    if c = '+' ∨ c = '-' then
      match twoDigits? rest with
      | some (hour, ':' :: rest) =>
        match twoDigits? rest with
        | some (minute, rest) => if hour ≤ 23 ∧ minute ≤ 59 then rest else cs
        | none => cs
      | _ => cs
    else cs
  | [] => []

/-- A date, a time, or both. -/
def dateTime? (cs : List Char) : Option (List Char) :=
  match date? cs with
  | some (c :: rest) =>
    if c = 'T' ∨ c = 't' ∨ c = ' ' then
      match time? rest with
      | some rest => some (dropOffset rest)
      | none => some (c :: rest)
    else some (c :: rest)
  | some [] => some []
  | none => time? cs

/-! ## Scalars -/

/-- A date, a float or an integer, tried in this order. -/
def number? (cs : List Char) : Option (Item × List Char) :=
  match dateTime? cs with
  | some rest => some (.dateTime, rest)
  | none =>
    match decimalFloat cs, specialFloat? cs with
    | .found rest, _ => some (.float, rest)
    | .broken, _ => none
    | .absent, some rest => some (.float, rest)
    | .absent, none => integer? cs

def scalar? (cs : List Char) : Option (Item × List Char) :=
  match cs with
  | '"' :: _ => (string? cs).map fun (s, rest) => (.string s, rest)
  | '\'' :: _ => (string? cs).map fun (s, rest) => (.string s, rest)
  | 't' :: 'r' :: 'u' :: 'e' :: rest => some (.bool true, rest)
  | 'f' :: 'a' :: 'l' :: 's' :: 'e' :: rest => some (.bool false, rest)
  | c :: _ =>
    if c.isDigit || c == '+' || c == '-' then number? cs
    else (specialFloat? cs).map fun rest => (.float, rest)
  | [] => none

end ColumnMetadata.Toml
