/-!
# Sets of code points

A set of code points is written as the increasing list of the points at which membership changes:
outside before the first of them, inside from the first up to the second, and so on. The Unicode
classes of this library are tables of this form.
-/

namespace ColumnMetadata.Text

/-- The code points at which membership in a set changes, in increasing order. -/
abbrev CodePoints := List Nat

namespace CodePoints

/-- A code point is inside when an odd number of changes lie at or below it. -/
def holds (changes : CodePoints) (c : Char) : Bool :=
  (changes.takeWhile (· ≤ c.toNat)).length % 2 == 1

@[simp] theorem holds_nil (c : Char) : holds [] c = false := rfl

end CodePoints

end ColumnMetadata.Text
