/-!
# Binary floating point of 64 bits

A finite number of the binary format with 53 bits of precision, held exactly: a sign, a mantissa
below `2 ^ 53` and a power of two. The operations compute the exact result as a fraction of natural
numbers and then round it once, to nearest with ties to the even mantissa; a result beyond the
largest finite number has no value.
-/

namespace ColumnMetadata

/-- The number `mantissa * 2 ^ exponent`, negated if `negative`. In the canonical form that the
operations produce, the mantissa has all 53 bits unless the exponent is the least one. -/
structure Binary64 where
  /-- The sign; zero has one too. -/
  negative : Bool
  /-- The significant bits, below `2 ^ 53`. -/
  mantissa : Nat
  /-- The power of two of the mantissa's last bit, from -1074 to 971. -/
  exponent : Int
deriving DecidableEq, Repr, Inhabited

namespace Binary64

def precision : Nat := 53

def minExponent : Int := -1074

def maxExponent : Int := 971

def zero (negative : Bool) : Binary64 := ⟨negative, 0, minExponent⟩

def isZero (x : Binary64) : Bool := x.mantissa == 0

def withSign (negative : Bool) (x : Binary64) : Binary64 := { x with negative }

/-- Equality of values: the two zeros are equal. -/
def sameValue (x y : Binary64) : Bool := x == y || (x.isZero && y.isZero)

/-- The greatest `e` with `2 ^ e ≤ num / den`, for positive `num` and `den`. -/
def floorLog2 (num den : Nat) : Int :=
  let e : Int := (num.log2 : Int) - den.log2
  if den * Nat.pow 2 e.toNat ≤ num * Nat.pow 2 (-e).toNat then e else e - 1

/-- The integer nearest to `num / den`, ties to even. -/
def nearest (num den : Nat) : Nat :=
  let q := num / den
  let r := num % den
  if den < 2 * r || (den == 2 * r && q % 2 == 1) then q + 1 else q

/-- The nonnegative number nearest to the fraction `num / den`, ties to the even mantissa; `none`
beyond the largest finite number. -/
def ofFraction (num den : Nat) : Option Binary64 :=
  if num = 0 then some (zero false)
  else
    let e := max (floorLog2 num den - 52) minExponent
    let m := nearest (num * Nat.pow 2 (-e).toNat) (den * Nat.pow 2 e.toNat)
    let (m, e) := if m = Nat.pow 2 precision then (Nat.pow 2 (precision - 1), e + 1) else (m, e)
    if maxExponent < e then none else some ⟨false, m, e⟩

/-- The magnitude as a fraction: numerator and positive denominator. -/
def fraction (x : Binary64) : Nat × Nat :=
  (x.mantissa * Nat.pow 2 x.exponent.toNat, Nat.pow 2 (-x.exponent).toNat)

def ofNat (n : Nat) : Option Binary64 := ofFraction n 1

/-- The product of two magnitudes, rounded once. -/
def mul (x y : Binary64) : Option Binary64 :=
  ofFraction (x.fraction.1 * y.fraction.1) (x.fraction.2 * y.fraction.2)

/-- The quotient of two magnitudes, rounded once; `none` for a zero divisor. -/
def div (x y : Binary64) : Option Binary64 :=
  if y.isZero then none
  else ofFraction (x.fraction.1 * y.fraction.2) (x.fraction.2 * y.fraction.1)

def powerOfTen (k : Nat) : Option Binary64 := ofNat (Nat.pow 10 k)

end Binary64

end ColumnMetadata
