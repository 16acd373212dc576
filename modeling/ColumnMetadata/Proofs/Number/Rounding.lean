import ColumnMetadata.Number.Binary64
import Mathlib.Algebra.Order.Field.Power
import Mathlib.Data.Rat.Cast.Order
import Mathlib.Tactic.FieldSimp
import Mathlib.Tactic.GCongr
import Mathlib.Tactic.Linarith
import Mathlib.Tactic.NormNum
import Mathlib.Tactic.Positivity
import Mathlib.Tactic.Ring

/-!
# Rounding once

How far a rounded fraction is from the fraction: at most half a unit in the last place, which is at
most one part in `2 ^ 53` unless the number is subnormal (`Binary64.magnitude_bounds`). A fraction
is rounded to a number at all when it stays below the middle between the largest number and the next
power of two (`Binary64.exists_ofFraction`).
-/

namespace ColumnMetadata

/-- A power with an integer exponent as a fraction of natural numbers. -/
theorem natPow_toNat_div {b : ℕ} (hb : 0 < b) (e : ℤ) :
    ((Nat.pow b e.toNat : ℕ) : ℚ) / (Nat.pow b (-e).toNat : ℕ) = (b : ℚ) ^ e := by
  have hne : (b : ℚ) ≠ 0 := by positivity
  rcases Int.le_total 0 e with h | h
  · obtain ⟨n, rfl⟩ := Int.eq_ofNat_of_zero_le h
    simp
  · obtain ⟨n, hn⟩ := Int.eq_ofNat_of_zero_le (Int.neg_nonneg.2 h)
    obtain rfl : e = -(n : ℤ) := by omega
    simp

namespace Binary64

/-- The absolute value of a binary number. -/
def magnitude (x : Binary64) : ℚ := x.mantissa * 2 ^ x.exponent

theorem magnitude_nonneg (x : Binary64) : 0 ≤ x.magnitude := by
  unfold magnitude
  positivity

theorem fraction_pos (x : Binary64) : 0 < x.fraction.2 := Nat.pow_pos (by decide)

theorem fraction_div (x : Binary64) : (x.fraction.1 : ℚ) / x.fraction.2 = x.magnitude := by
  have hpow := natPow_toNat_div (b := 2) (by decide) x.exponent
  rw [fraction, magnitude]
  push_cast at hpow ⊢
  rw [mul_div_assoc, hpow]

/-! ## The leading bit of a fraction -/

section Fraction

variable {num den : ℕ} (hnum : 0 < num) (hden : 0 < den)

include hden in
/-- A power of two compared with a fraction in natural numbers. -/
theorem two_zpow_le_div (e : ℤ) :
    den * Nat.pow 2 e.toNat ≤ num * Nat.pow 2 (-e).toNat ↔ (2 : ℚ) ^ e ≤ num / den := by
  have hpow := natPow_toNat_div (b := 2) (by decide) e
  have hdown : (0 : ℚ) < (Nat.pow 2 (-e).toNat : ℕ) := by
    exact_mod_cast Nat.pow_pos (n := (-e).toNat) (by decide : 0 < 2)
  have hd : (0 : ℚ) < den := by exact_mod_cast hden
  rw [Nat.cast_ofNat] at hpow
  rw [← hpow, div_le_div_iff₀ hdown hd, mul_comm den]
  norm_cast

include hnum hden in
/-- The leading bit of a fraction. -/
theorem floorLog2_bounds :
    (2 : ℚ) ^ floorLog2 num den ≤ num / den ∧ (num : ℚ) / den < 2 ^ (floorLog2 num den + 1) := by
  have hn : (0 : ℚ) < num := by exact_mod_cast hnum
  have hd : (0 : ℚ) < den := by exact_mod_cast hden
  have hnlow : ((2 : ℚ) ^ (num.log2 : ℤ)) ≤ num := by
    exact_mod_cast Nat.log2_self_le hnum.ne'
  have hnhigh : (num : ℚ) < 2 ^ ((num.log2 : ℤ) + 1) := by
    exact_mod_cast Nat.lt_log2_self (n := num)
  have hdlow : ((2 : ℚ) ^ (den.log2 : ℤ)) ≤ den := by
    exact_mod_cast Nat.log2_self_le hden.ne'
  have hdhigh : (den : ℚ) < 2 ^ ((den.log2 : ℤ) + 1) := by
    exact_mod_cast Nat.lt_log2_self (n := den)
  have hlow : (2 : ℚ) ^ ((num.log2 : ℤ) - den.log2 - 1) ≤ num / den := by
    rw [le_div_iff₀ hd]
    calc (2 : ℚ) ^ ((num.log2 : ℤ) - den.log2 - 1) * den
        ≤ 2 ^ ((num.log2 : ℤ) - den.log2 - 1) * 2 ^ ((den.log2 : ℤ) + 1) := by gcongr
      _ = 2 ^ (num.log2 : ℤ) := by rw [← zpow_add₀ two_ne_zero]; congr 1; ring
      _ ≤ num := hnlow
  have hhigh : (num : ℚ) / den < 2 ^ ((num.log2 : ℤ) - den.log2 + 1) := by
    rw [div_lt_iff₀ hd]
    calc (num : ℚ) < 2 ^ ((num.log2 : ℤ) + 1) := hnhigh
      _ = 2 ^ ((num.log2 : ℤ) - den.log2 + 1) * 2 ^ (den.log2 : ℤ) := by
        rw [← zpow_add₀ two_ne_zero]; congr 1; ring
      _ ≤ 2 ^ ((num.log2 : ℤ) - den.log2 + 1) * den := by gcongr
  unfold floorLog2
  dsimp only
  split
  · next h => exact ⟨(two_zpow_le_div hden _).1 h, hhigh⟩
  · next h =>
    rw [two_zpow_le_div hden, not_le] at h
    exact ⟨hlow, by rwa [sub_add_cancel]⟩

/-! ## The nearest integer -/

include hden in
/-- The nearest integer is off by half of the denominator at most. -/
theorem nearest_bounds (num : ℕ) :
    2 * (den * nearest num den) ≤ 2 * num + den ∧ 2 * num ≤ 2 * (den * nearest num den) + den := by
  have hdiv := Nat.div_add_mod num den
  have hmod := Nat.mod_lt num hden
  unfold nearest
  dsimp only
  split
  · next h =>
    simp only [Bool.or_eq_true, Bool.and_eq_true, decide_eq_true_eq, beq_iff_eq] at h
    rw [Nat.mul_add, Nat.mul_one]
    omega
  · next h =>
    simp only [Bool.or_eq_true, Bool.and_eq_true, decide_eq_true_eq, beq_iff_eq] at h
    omega

include hden in
theorem nearest_le (num : ℕ) : (nearest num den : ℚ) ≤ num / den + 1 / 2 := by
  have hd : (0 : ℚ) < den := by exact_mod_cast hden
  have h : (2 * (den * nearest num den) : ℚ) ≤ 2 * num + den := by
    exact_mod_cast (nearest_bounds hden num).1
  rw [← sub_le_iff_le_add, le_div_iff₀ hd]
  linarith

include hden in
theorem le_nearest (num : ℕ) : (num : ℚ) / den - 1 / 2 ≤ nearest num den := by
  have hd : (0 : ℚ) < den := by exact_mod_cast hden
  have h : (2 * num : ℚ) ≤ 2 * (den * nearest num den) + den := by
    exact_mod_cast (nearest_bounds hden num).2
  rw [sub_le_iff_le_add, div_le_iff₀ hd]
  linarith

end Fraction

/-! ## Rounding a fraction -/

/-- The power of two of the last bit to which a fraction is rounded. -/
def lastBit (num den : ℕ) : ℤ := max (floorLog2 num den - 52) minExponent

/-- A fraction in units of its last bit, rounded to an integer. -/
def significand (num den : ℕ) : ℕ :=
  nearest (num * Nat.pow 2 (-lastBit num den).toNat) (den * Nat.pow 2 (lastBit num den).toNat)

section Rounded

variable {num den : ℕ} (hnum : 0 < num) (hden : 0 < den)

include hnum in
theorem ofFraction_eq_of_lt (hcarry : significand num den ≠ 2 ^ 53) :
    ofFraction num den = if maxExponent < lastBit num den then none
      else some ⟨false, significand num den, lastBit num den⟩ := by
  have hcarry' : ¬significand num den = Nat.pow 2 precision := hcarry
  unfold significand lastBit at hcarry' ⊢
  rw [ofFraction, if_neg hnum.ne']
  simp only [if_neg hcarry']

include hnum in
/-- When all bits are carried, the number is the next power of two. -/
theorem ofFraction_eq_of_carry (hcarry : significand num den = 2 ^ 53) :
    ofFraction num den = if maxExponent < lastBit num den + 1 then none
      else some ⟨false, 2 ^ 52, lastBit num den + 1⟩ := by
  have hcarry' : significand num den = Nat.pow 2 precision := hcarry
  unfold significand lastBit at hcarry'
  unfold lastBit
  rw [ofFraction, if_neg hnum.ne']
  simp only [if_pos hcarry']
  rfl

include hden in
theorem scaled_pos (num : ℕ) : 0 < den * Nat.pow 2 (lastBit num den).toNat :=
  Nat.mul_pos hden (Nat.pow_pos (by decide))

theorem scaled_div (num den : ℕ) :
    ((num * Nat.pow 2 (-lastBit num den).toNat : ℕ) : ℚ) /
      (den * Nat.pow 2 (lastBit num den).toNat : ℕ) = num / den / 2 ^ lastBit num den := by
  have hpow := natPow_toNat_div (b := 2) (by decide) (lastBit num den)
  rw [Nat.cast_ofNat] at hpow
  rw [← hpow]
  push_cast
  field_simp

include hden in
/-- Rounding is off by half a unit in the last place at most. -/
theorem significand_bounds (num : ℕ) :
    (num : ℚ) / den - 2 ^ (lastBit num den - 1) ≤ significand num den * 2 ^ lastBit num den ∧
      (significand num den * 2 ^ lastBit num den : ℚ) ≤ num / den + 2 ^ (lastBit num den - 1) := by
  have hunit : (0 : ℚ) < 2 ^ lastBit num den := by positivity
  have hhalf : (2 : ℚ) ^ (lastBit num den - 1) = 1 / 2 * 2 ^ lastBit num den := by
    rw [zpow_sub_one₀ two_ne_zero]
    ring
  have hlow := le_nearest (scaled_pos hden num) (num * Nat.pow 2 (-lastBit num den).toNat)
  have hhigh := nearest_le (scaled_pos hden num) (num * Nat.pow 2 (-lastBit num den).toNat)
  rw [scaled_div] at hlow hhigh
  rw [hhalf]
  constructor
  · calc (num : ℚ) / den - 1 / 2 * 2 ^ lastBit num den
        = (num / den / 2 ^ lastBit num den - 1 / 2) * 2 ^ lastBit num den := by field_simp
      _ ≤ significand num den * 2 ^ lastBit num den := by
        exact mul_le_mul_of_nonneg_right hlow hunit.le
  · calc (significand num den * 2 ^ lastBit num den : ℚ)
        ≤ (num / den / 2 ^ lastBit num den + 1 / 2) * 2 ^ lastBit num den :=
          mul_le_mul_of_nonneg_right hhigh hunit.le
      _ = num / den + 1 / 2 * 2 ^ lastBit num den := by field_simp

include hnum hden in
/-- A fraction has 53 bits in front of its last one at most. -/
theorem significand_le : significand num den ≤ 2 ^ 53 := by
  have hhigh := nearest_le (scaled_pos hden num) (num * Nat.pow 2 (-lastBit num den).toNat)
  rw [scaled_div] at hhigh
  have hunit : (0 : ℚ) < 2 ^ lastBit num den := by positivity
  have hexponent : floorLog2 num den + 1 ≤ 53 + lastBit num den := by
    have := le_max_left (floorLog2 num den - 52) minExponent
    unfold lastBit
    omega
  have hbelow : (num : ℚ) / den / 2 ^ lastBit num den < 2 ^ 53 := by
    rw [div_lt_iff₀ hunit]
    calc (num : ℚ) / den < 2 ^ (floorLog2 num den + 1) := (floorLog2_bounds hnum hden).2
      _ ≤ 2 ^ (53 + lastBit num den) := zpow_le_zpow_right₀ one_le_two hexponent
      _ = 2 ^ 53 * 2 ^ lastBit num den := by rw [zpow_add₀ two_ne_zero]; norm_cast
  have hlt : (significand num den : ℚ) < (2 ^ 53 + 1 : ℕ) := by
    push_cast
    exact lt_of_le_of_lt hhigh (by linarith)
  exact Nat.lt_succ_iff.1 (by exact_mod_cast hlt)

end Rounded

/-! ## The rounded number -/

/-- A number within the format: 53 bits, and an exponent that is not too large. -/
structure Finite (x : Binary64) : Prop where
  mantissa : x.mantissa < 2 ^ 53
  exponent : x.exponent ≤ maxExponent

theorem finite_zero (negative : Bool) : (zero negative).Finite :=
  ⟨Nat.two_pow_pos 53, Int.le_of_lt (by decide : minExponent < maxExponent)⟩

section Result

variable {num den : ℕ} {x : Binary64}

theorem finite_of_ofFraction (hden : 0 < den) (h : ofFraction num den = some x) : x.Finite := by
  rcases Nat.eq_zero_or_pos num with rfl | hnum
  · cases h
    exact finite_zero false
  · by_cases hcarry : significand num den = 2 ^ 53
    · rw [ofFraction_eq_of_carry hnum hcarry] at h
      split at h
      · cases h
      · next hexponent =>
        cases h
        exact ⟨(by norm_num : 2 ^ 52 < 2 ^ 53), not_lt.1 hexponent⟩
    · rw [ofFraction_eq_of_lt hnum hcarry] at h
      split at h
      · cases h
      · next hexponent =>
        cases h
        exact ⟨lt_of_le_of_ne (significand_le hnum hden) hcarry, not_lt.1 hexponent⟩

theorem magnitude_of_ofFraction (hnum : 0 < num) (h : ofFraction num den = some x) :
    x.magnitude = significand num den * 2 ^ lastBit num den := by
  by_cases hcarry : significand num den = 2 ^ 53
  · rw [ofFraction_eq_of_carry hnum hcarry] at h
    split at h
    · cases h
    · cases h
      rw [magnitude, hcarry, zpow_add₀ two_ne_zero]
      push_cast
      ring
  · rw [ofFraction_eq_of_lt hnum hcarry] at h
    split at h
    · cases h
    · cases h
      rfl

/-- How far from a number the nearest binary one can be: one part in `2 ^ 53`, or half of the least
positive number. -/
def roundingError (q : ℚ) : ℚ := max (q * 2 ^ (-53 : ℤ)) (2 ^ (-1075 : ℤ))

theorem roundingError_pos (q : ℚ) : 0 < roundingError q := lt_max_of_lt_right (by positivity)

theorem roundingError_of_one_le {q : ℚ} (h : 1 ≤ q) : roundingError q = q * 2 ^ (-53 : ℤ) := by
  refine max_eq_left ?_
  calc (2 : ℚ) ^ (-1075 : ℤ) ≤ 1 * 2 ^ (-53 : ℤ) := by
        rw [one_mul]
        exact zpow_le_zpow_right₀ one_le_two (by decide)
    _ ≤ q * 2 ^ (-53 : ℤ) := by gcongr

/-- Half a unit in the last place. -/
theorem two_zpow_lastBit_le (hnum : 0 < num) (hden : 0 < den) :
    (2 : ℚ) ^ (lastBit num den - 1) ≤ roundingError (num / den) := by
  rcases max_choice (floorLog2 num den - 52) minExponent with he | he
  · refine le_max_of_le_left ?_
    calc (2 : ℚ) ^ (lastBit num den - 1) = 2 ^ floorLog2 num den * 2 ^ (-53 : ℤ) := by
          rw [lastBit, he, ← zpow_add₀ two_ne_zero]
          congr 1
          ring
      _ ≤ num / den * 2 ^ (-53 : ℤ) := by
          have := (floorLog2_bounds hnum hden).1
          gcongr
  · refine le_max_of_le_right ?_
    rw [lastBit, he]
    exact le_refl _

theorem magnitude_bounds (hden : 0 < den) (h : ofFraction num den = some x) :
    (num : ℚ) / den - roundingError (num / den) ≤ x.magnitude ∧
      x.magnitude ≤ num / den + roundingError (num / den) := by
  rcases Nat.eq_zero_or_pos num with rfl | hnum
  · cases h
    have herror := (roundingError_pos 0).le
    simp only [magnitude, zero, Nat.cast_zero, zero_mul, zero_div]
    exact ⟨sub_nonpos.2 herror, le_add_of_nonneg_right herror⟩
  · have hround := significand_bounds hden num
    have hunit := two_zpow_lastBit_le hnum hden
    rw [magnitude_of_ofFraction hnum h]
    exact ⟨by linarith, by linarith⟩

/-- From one on, the error is relative. -/
theorem magnitude_bounds_of_one_le (hden : 0 < den) (h : ofFraction num den = some x)
    (hone : (1 : ℚ) ≤ num / den) :
    (num : ℚ) / den * (1 - 2 ^ (-53 : ℤ)) ≤ x.magnitude ∧
      x.magnitude ≤ num / den * (1 + 2 ^ (-53 : ℤ)) := by
  have hround := magnitude_bounds hden h
  rw [roundingError_of_one_le hone] at hround
  exact ⟨by linarith, by linarith⟩

/-- The middle between the largest number and the next power of two. -/
def overflow : ℚ := (2 ^ 53 - 1 / 2) * 2 ^ (971 : ℤ)

/-- A fraction below the overflow is rounded to a number. -/
theorem exists_ofFraction (hden : 0 < den) (h : (num : ℚ) / den < overflow) :
    ∃ x, ofFraction num den = some x := by
  unfold overflow at h
  rcases Nat.eq_zero_or_pos num with rfl | hnum
  · exact ⟨_, rfl⟩
  have hunit : (0 : ℚ) < 2 ^ (971 : ℤ) := by positivity
  have hlog : floorLog2 num den < 53 + 971 := by
    have htop : (2 : ℚ) ^ floorLog2 num den < 2 ^ (53 + 971 : ℤ) :=
      calc (2 : ℚ) ^ floorLog2 num den ≤ num / den := (floorLog2_bounds hnum hden).1
        _ < (2 ^ 53 - 1 / 2) * 2 ^ (971 : ℤ) := h
        _ < 2 ^ (53 : ℤ) * 2 ^ (971 : ℤ) := by gcongr; norm_num
        _ = 2 ^ (53 + 971 : ℤ) := (zpow_add₀ two_ne_zero _ _).symm
    exact (zpow_lt_zpow_iff_right₀ one_lt_two).1 htop
  have hbit : lastBit num den ≤ 971 := max_le (by omega) (by decide)
  by_cases hcarry : significand num den = 2 ^ 53
  · -- All bits are carried only below the last exponent, since the fraction is below the middle.
    have hbelow : lastBit num den ≠ 971 := by
      intro he
      have hhigh := (significand_bounds hden num).2
      rw [hcarry, he, zpow_sub_one₀ two_ne_zero, Nat.cast_pow, Nat.cast_ofNat] at hhigh
      linarith
    rw [ofFraction_eq_of_carry hnum hcarry, if_neg (by unfold maxExponent; omega)]
    exact ⟨_, rfl⟩
  · rw [ofFraction_eq_of_lt hnum hcarry, if_neg (by unfold maxExponent; omega)]
    exact ⟨_, rfl⟩

end Result

end Binary64

end ColumnMetadata
