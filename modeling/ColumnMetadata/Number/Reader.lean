import ColumnMetadata.Number.Basic

/-!
# Reading a number

The text of a number is a sign, integer digits without a leading zero, and an optional fraction and
exponent. It is read digit by digit into a natural number of 64 bits and a power of ten. Digits that
would not fit are dropped: an integer digit raises the power by one, a fraction digit is ignored
with all digits behind it. The power is then applied by one multiplication or division of binary
numbers, after as many divisions by `10 ^ 308` as it takes to bring it into the table of powers. The
result can differ from the nearest binary number in its last place; this reader is the one rule for
what a number text means, in configuration blocks and in JSON alike.
-/

namespace ColumnMetadata.Number

def maxSignificand : Nat := 0xffffffffffffffff

/-- The largest exponent that is accumulated. -/
def maxWrittenExponent : Nat := 0x7fffffff

def digitValue (c : Char) : Nat := c.toNat - '0'.toNat

/-- The parts of a number's text. -/
structure Parts where
  /-- A minus sign stands in front. -/
  negative : Bool
  /-- The digits in front of the point. -/
  whole : List Char
  /-- The digits behind the point, if there is one. -/
  fraction : Option (List Char)
  /-- The sign and the digits behind the exponent mark, if there is one. -/
  exponent : Option (Bool × List Char)
deriving DecidableEq, Repr

/-- Integer digits are not empty and have no leading zero unless they are one zero. -/
def isWhole : List Char → Bool
  | [] => false
  | ['0'] => true
  | '0' :: _ => false
  | _ => true

/-- The exponent part of a number's text: a mark, a sign and digits, up to the end. -/
def exponentOf? : List Char → Option (Option (Bool × List Char))
  | [] => some none
  | c :: cs =>
    if c = 'e' ∨ c = 'E' then
      let (negative, digits) := match cs with
        | '-' :: ds => (true, ds)
        | '+' :: ds => (false, ds)
        | ds => (false, ds)
      if !digits.isEmpty && digits.all Char.isDigit then some (some (negative, digits)) else none
    else none

/-- The parts of a text that is a number and nothing else. -/
def parts? (cs : List Char) : Option Parts :=
  let (negative, cs) := match cs with
    | '-' :: rest => (true, rest)
    | cs => (false, cs)
  let whole := cs.takeWhile Char.isDigit
  let rest := cs.dropWhile Char.isDigit
  if isWhole whole then
    match rest with
    | '.' :: rest =>
      let fraction := rest.takeWhile Char.isDigit
      if fraction.isEmpty then none
      else (exponentOf? (rest.dropWhile Char.isDigit)).map fun e =>
        ⟨negative, whole, some fraction, e⟩
    | rest => (exponentOf? rest).map fun e => ⟨negative, whole, none, e⟩
  else none

/-- Integer digits read into a significand, and the count of digits dropped once one did not
fit. -/
def wholeOf : List Char → Nat → Nat × Nat
  | [], sig => (sig, 0)
  | c :: cs, sig =>
    let next := sig * 10 + digitValue c
    if next ≤ maxSignificand then wholeOf cs next else (sig, cs.length + 1)

/-- Fraction digits read into a significand, and how many were taken. -/
def fractionOf : List Char → Nat → Nat × Nat
  | [], sig => (sig, 0)
  | c :: cs, sig =>
    let next := sig * 10 + digitValue c
    if next ≤ maxSignificand then
      let (sig, taken) := fractionOf cs next
      (sig, taken + 1)
    else (sig, 0)

/-- The value of exponent digits, unless it passes the largest exponent. -/
def exponentValue? (digits : List Char) : Option Nat :=
  let n := digits.foldl (fun n c => n * 10 + digitValue c) 0
  if n ≤ maxWrittenExponent then some n else none

/-- Divides by `10 ^ 308` until the power of ten lies in the table of powers or nothing is left.
The first argument counts the divisions that the power asks for. -/
def scaleDown : Nat → Binary64 → Int → Option (Binary64 × Int)
  | 0, x, e => some (x, e)
  | n + 1, x, e =>
    if -308 ≤ e ∨ x.isZero then some (x, e)
    else do
      let p ← Binary64.powerOfTen 308
      let y ← x.div p
      scaleDown n y (e + 308)

/-- The magnitude `sig * 10 ^ e`, or `none` when it is out of range. -/
def scaled? (sig : Nat) (e : Int) : Option Binary64 := do
  let x ← Binary64.ofNat sig
  if 308 < e then
    if x.isZero then some x else none
  else
    -- a significand below `2 ^ 64` is used up after two divisions
    let (x, e) ← scaleDown 3 x e
    if e < -308 then some x
    else
      let p ← Binary64.powerOfTen e.natAbs
      if 0 ≤ e then x.mul p else x.div p

/-- The exponent of ten that the accumulated digits and the written exponent give, clamped to 32
bits. -/
def clampExponent (e : Int) : Int := max (-0x80000000) (min 0x7fffffff e)

/-- The number that the parts of a text stand for; `none` when it is out of range. -/
def ofParts? (p : Parts) : Option Number :=
  let (sig, dropped) := wholeOf p.whole 0
  if dropped = 0 ∧ p.fraction = none ∧ p.exponent = none then
    if p.negative then
      if 0 < sig ∧ sig ≤ 0x8000000000000000 then some (integer (-(sig : Int)))
      else (Binary64.ofNat sig).map fun x => float (x.withSign true)
    else some (integer sig)
  else
    let (sig, taken) := match p.fraction with
      | some ds => fractionOf ds sig
      | none => (sig, 0)
    let start : Int := (dropped : Int) - taken
    let magnitude : Option Binary64 := match p.exponent with
      | none => scaled? sig start
      | some (negative, digits) =>
        match exponentValue? digits with
        | some n => scaled? sig (clampExponent (if negative then start - n else start + n))
        | none => if sig = 0 ∨ negative then some (Binary64.zero false) else none
    magnitude.map fun x => float (x.withSign p.negative)

/-- The number that a text is, if the whole text is one and it is in range. -/
def read? (cs : List Char) : Option Number := (parts? cs).bind ofParts?

end ColumnMetadata.Number
