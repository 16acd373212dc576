import ColumnMetadata.Number.Binary64

/-!
# The shortest decimal of a binary number

A binary number is written with the fewest digits that read back: among the decimals with the
least count of digits inside the interval of reals that round to the number, the one nearest to it,
and of two equally near the even one. The interval contains its ends exactly when the mantissa is
even.
-/

namespace ColumnMetadata

/-- The number `digits * 10 ^ exponent`. -/
structure Decimal where
  /-- The digits as one natural number. -/
  digits : Nat
  /-- The power of ten of the last digit. -/
  exponent : Int
deriving DecidableEq, Repr, Inhabited

namespace Decimal

/-- The count of decimal digits of a number; zero has one. -/
def digitCount (n : Nat) : Nat := (Nat.toDigits 10 n).length

/-- The greatest `e` with `10 ^ e ≤ num / den`, for positive `num` and `den`. -/
def floorLog10 (num den : Nat) : Int :=
  if den ≤ num then (digitCount (num / den) : Int) - 1
  else -(digitCount ((den + num - 1) / num - 1) : Int)

/-- The reals that round to a binary number, in quarters of its last bit: the number itself, the
ends of the interval, and whether the ends belong to it. -/
structure Interval where
  /-- The number. -/
  mid : Nat
  /-- The lower end. -/
  low : Nat
  /-- The upper end. -/
  high : Nat
  /-- Whether the ends round to the number too. -/
  closed : Bool

/-- The interval around a positive number. Below a power of two the neighbours stand closer. -/
def Interval.around (mantissa : Nat) (exponent : Int) : Interval where
  mid := 4 * mantissa
  low := if mantissa = Nat.pow 2 52 ∧ Binary64.minExponent < exponent then 4 * mantissa - 1
    else 4 * mantissa - 2
  high := 4 * mantissa + 2
  closed := mantissa % 2 == 0

/-- Whether the fraction `num / den` of a quarter unit lies in the interval. -/
def Interval.contains (i : Interval) (num den : Nat) : Bool :=
  if i.closed then i.low * den ≤ num && num ≤ i.high * den
  else i.low * den < num && num < i.high * den

/-- The decimal with its last digit at `10 ^ k` that lies in the interval and is nearest to the
number `mid * 2 ^ quarter`, if there is one. Only the number's two neighbours on the grid of
multiples of `10 ^ k` have to be tried. -/
def onGrid (i : Interval) (quarter : Int) (k : Int) : Option Decimal :=
  -- a multiple `c` of `10 ^ k` is `c * up / down` quarter units
  let up := Nat.pow 10 k.toNat * Nat.pow 2 (-quarter).toNat
  let down := Nat.pow 10 (-k).toNat * Nat.pow 2 quarter.toNat
  let below := i.mid * down / up
  let above := below + 1
  match i.contains (below * up) down, i.contains (above * up) down with
  | true, true =>
    let fromBelow := i.mid * down - below * up
    let fromAbove := above * up - i.mid * down
    if fromBelow < fromAbove || (fromBelow == fromAbove && below % 2 == 0) then some ⟨below, k⟩
    else some ⟨above, k⟩
  | true, false => some ⟨below, k⟩
  | false, true => some ⟨above, k⟩
  | false, false => none

/-- The shortest decimal of a positive binary number: the first grid from the coarsest on that has
a decimal in the interval. Seventeen digits always suffice. -/
def shortest (x : Binary64) : Decimal :=
  let quarter := x.exponent - 2
  let i := Interval.around x.mantissa x.exponent
  let top := floorLog10 (i.mid * Nat.pow 2 quarter.toNat) (Nat.pow 2 (-quarter).toNat)
  ((List.range 17).findSome? fun (n : Nat) => onGrid i quarter (top - n)).getD ⟨0, 0⟩

/-- The same number without zeros at the end of its digits; the first argument bounds their
count. -/
def trimZeros : Nat → Decimal → Decimal
  | 0, d => d
  | n + 1, d =>
    if d.digits % 10 = 0 ∧ d.digits ≠ 0 then trimZeros n ⟨d.digits / 10, d.exponent + 1⟩ else d

def digitsOf (n : Nat) : List Char := Nat.toDigits 10 n

/-- The text of a decimal: with a point from `10 ^ -5` up to below `10 ^ 16`, always with a
fraction, and with an exponent that carries its sign elsewhere. -/
def text (d : Decimal) : List Char :=
  let d := trimZeros 20 d
  let ds := digitsOf d.digits
  let first : Int := d.exponent + ds.length - 1
  if -5 ≤ first ∧ first ≤ 15 then
    if 0 ≤ d.exponent then ds ++ List.replicate d.exponent.toNat '0' ++ ['.', '0']
    else if 0 ≤ first then
      let whole := first.toNat + 1
      ds.take whole ++ '.' :: ds.drop whole
    else ['0', '.'] ++ List.replicate (-first - 1).toNat '0' ++ ds
  else
    let fraction := if ds.length = 1 then [] else '.' :: ds.drop 1
    let sign := if 0 ≤ first then '+' else '-'
    ds.take 1 ++ fraction ++ 'e' :: sign :: digitsOf first.natAbs

end Decimal

/-- The text of a binary number: its sign, and the shortest decimal of its magnitude. -/
def Binary64.text (x : Binary64) : List Char :=
  let magnitude := if x.isZero then ['0', '.', '0'] else (Decimal.shortest x).text
  if x.negative then '-' :: magnitude else magnitude

end ColumnMetadata
