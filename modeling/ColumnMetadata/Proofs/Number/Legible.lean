import ColumnMetadata.Proofs.Number.Shortest
import ColumnMetadata.Proofs.Value.Shape

/-!
# The texts of numbers are read

Every number that is read has a text that is read again (`Number.legible_of_read?`). It need not be
read as the same number: the reader may miss the nearest one by a place. Only next to the overflow
could that miss lead out of range, and there it does not: the texts of the three largest numbers are
read one by one.
-/

namespace ColumnMetadata.Number

open Binary64 Decimal

theorem exists_read?_layout {d : Decimal} (hd : 0 < d.digits)
    (h : d.value * (1 + 2 ^ (-53 : ℤ)) ^ 2 < overflow) (negative : Bool) :
    ∃ x, read? (layout negative d).text = some x := by
  rw [read?, parts?_text (wellFormed_layout hd negative), Option.bind_some]
  exact exists_ofParts?_layout hd negative h

theorem read?_zero (negative : Bool) :
    ∃ x, read? (if negative then ['-', '0', '.', '0'] else ['0', '.', '0']) = some x := by
  cases negative
  · exact Option.isSome_iff_exists.1 (by decide +kernel)
  · exact Option.isSome_iff_exists.1 (by decide +kernel)

/-- The three largest numbers: the errors of two roundings could lead out of range here. -/
theorem legible_largest {x : Binary64} (hx : x.Finite) (hmantissa : 2 ^ 53 < x.mantissa + 4)
    (hexponent : x.exponent = 971) : (float x).Legible := by
  have hread : ∀ negative ∈ [true, false], ∀ n ∈ [1, 2, 3],
      (read? (float ⟨negative, 2 ^ 53 - n, 971⟩).text).isSome = true := by decide +kernel
  obtain ⟨negative, mantissa, exponent⟩ := x
  have hx := hx.mantissa
  dsimp only at hx hmantissa hexponent
  subst hexponent
  obtain ⟨n, hn, rfl⟩ : ∃ n ∈ [1, 2, 3], mantissa = 2 ^ 53 - n := by
    refine ⟨2 ^ 53 - mantissa, ?_, by omega⟩
    simp only [List.mem_cons, List.not_mem_nil, or_false]
    omega
  exact Option.isSome_iff_exists.1 (hread negative (by cases negative <;> decide) n hn)

/-- Below them, half of the last bit and the errors of two roundings stay in range. -/
theorem lt_overflow {x : Binary64} (hx : x.Finite)
    (h : x.mantissa + 4 ≤ 2 ^ 53 ∨ x.exponent ≠ 971) :
    ((x.mantissa : ℚ) + 1 / 2) * 2 ^ x.exponent * (1 + 2 ^ (-53 : ℤ)) ^ 2 < overflow := by
  have hmax : x.exponent ≤ 971 := hx.exponent
  have hunit : (0 : ℚ) < 2 ^ (971 : ℤ) := by positivity
  have hpow : (0 : ℚ) < 2 ^ x.exponent := by positivity
  unfold overflow
  rcases h with h | h
  · have hmantissa : (x.mantissa : ℚ) ≤ 2 ^ 53 - 4 := by
      have : (x.mantissa + 4 : ℚ) ≤ 2 ^ 53 := by exact_mod_cast h
      linarith
    have hle : (2 : ℚ) ^ x.exponent ≤ 2 ^ (971 : ℤ) := zpow_le_zpow_right₀ one_le_two hmax
    generalize (2 : ℚ) ^ (971 : ℤ) = unit at hunit hle ⊢
    generalize (2 : ℚ) ^ x.exponent = pow at hpow hle ⊢
    calc ((x.mantissa : ℚ) + 1 / 2) * pow * (1 + 2 ^ (-53 : ℤ)) ^ 2
        ≤ (2 ^ 53 - 4 + 1 / 2) * unit * (1 + 2 ^ (-53 : ℤ)) ^ 2 := by gcongr
      _ = (2 ^ 53 - 4 + 1 / 2) * (1 + 2 ^ (-53 : ℤ)) ^ 2 * unit := by ring
      _ < (2 ^ 53 - 1 / 2) * unit := by
        gcongr
        norm_num
  · have hmantissa : (x.mantissa : ℚ) ≤ 2 ^ 53 - 1 := by
      have : (x.mantissa + 1 : ℚ) ≤ 2 ^ 53 := by exact_mod_cast hx.mantissa
      linarith
    have hle : (2 : ℚ) ^ x.exponent ≤ 2 ^ (971 : ℤ) / 2 := by
      rw [div_eq_mul_inv, ← zpow_sub_one₀ two_ne_zero]
      exact zpow_le_zpow_right₀ one_le_two (by omega)
    generalize (2 : ℚ) ^ (971 : ℤ) = unit at hunit hle ⊢
    generalize (2 : ℚ) ^ x.exponent = pow at hpow hle ⊢
    calc ((x.mantissa : ℚ) + 1 / 2) * pow * (1 + 2 ^ (-53 : ℤ)) ^ 2
        ≤ (2 ^ 53 - 1 + 1 / 2) * (unit / 2) * (1 + 2 ^ (-53 : ℤ)) ^ 2 := by gcongr
      _ = (2 ^ 53 - 1 + 1 / 2) * ((1 + 2 ^ (-53 : ℤ)) ^ 2 / 2) * unit := by ring
      _ < (2 ^ 53 - 1 / 2) * unit := by
        gcongr
        norm_num

theorem text_float (x : Binary64) (hx : ¬x.isZero = true) : (float x).text =
    if x.negative then '-' :: (shortest x).text else (shortest x).text := by
  rw [Number.text, Binary64.text, if_neg hx]

/-- The text of a number of the format is read. -/
theorem legible_of_finite {x : Binary64} (hx : x.Finite) : (float x).Legible := by
  by_cases hzero : x.isZero = true
  · have htext : (float x).text = if x.negative then ['-', '0', '.', '0'] else ['0', '.', '0'] := by
      rw [Number.text, Binary64.text, if_pos hzero]
    rw [Legible, htext]
    exact read?_zero _
  · have hmantissa : 0 < x.mantissa := Nat.pos_of_ne_zero fun h => hzero (beq_iff_eq.2 h)
    rcases shortest_cases hmantissa with hd | ⟨hpos, hle⟩
    · rw [Legible, text_float x hzero, hd]
      exact read?_zero _
    · by_cases hlarge : 2 ^ 53 < x.mantissa + 4 ∧ x.exponent = 971
      · exact legible_largest hx hlarge.1 hlarge.2
      · obtain ⟨hvalue, hdigits⟩ := trimZeros_spec 20 (shortest x) hpos
        rw [Legible, text_float x hzero, ← text_layout]
        refine exists_read?_layout hdigits ?_ x.negative
        rw [hvalue]
        exact lt_of_le_of_lt (mul_le_mul_of_nonneg_right hle (by positivity))
          (lt_overflow hx (by omega))

/-- What is read has a text that is read. -/
theorem legible_of_read? {cs : List Char} {x : Number} (h : read? cs = some x) : x.Legible := by
  cases x with
  | integer i => exact Rereads.legible (IsInteger.rereads (inRange_of_read? h))
  | float x => exact legible_of_finite (finite_of_read? h)

end ColumnMetadata.Number
