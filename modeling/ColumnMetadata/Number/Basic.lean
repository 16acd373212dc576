import ColumnMetadata.Number.Shortest

/-!
# Numbers

A number of a configuration value is an integer of 64 bits, signed or unsigned, or a binary
floating-point number. The two kinds never equal each other: `1` is not `1.0`.
-/

namespace ColumnMetadata

/-- A number as it is read and written. -/
inductive Number where
  /-- An integer from `-2 ^ 63` to `2 ^ 64 - 1`. -/
  | integer (value : Int)
  /-- A number with a fraction or an exponent, or an integer out of range. -/
  | float (value : Binary64)
deriving DecidableEq, Repr, Inhabited

namespace Number

/-- The integers that are held exactly. -/
def InRange (i : Int) : Prop := -0x8000000000000000 ≤ i ∧ i < 0x10000000000000000

instance (i : Int) : Decidable (InRange i) := inferInstanceAs (Decidable (_ ∧ _))

/-- An integer that is held exactly; no float. -/
def IsInteger : Number → Prop
  | integer i => InRange i
  | float _ => False

instance (n : Number) : Decidable n.IsInteger := by
  cases n <;> unfold IsInteger <;> infer_instance

/-- Equality of values of one kind: the float zeros are equal. -/
def sameValue : Number → Number → Bool
  | integer i, integer j => i == j
  | float x, float y => x.sameValue y
  | _, _ => false

def integerText (i : Int) : List Char :=
  if i < 0 then '-' :: Decimal.digitsOf i.natAbs else Decimal.digitsOf i.natAbs

def text : Number → List Char
  | integer i => integerText i
  | float x => x.text

end Number

end ColumnMetadata
