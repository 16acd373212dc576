import ColumnMetadata.Number.Reader
import ColumnMetadata.Proofs.Number.Rounding

/-!
# The range of the reader

Reading digits and a power of ten gives a number of the format (`Number.finite_of_read?`). A power
that is not positive always gives one, whatever the digits (`Number.exists_scaled?_of_nonpos`): the
divisions only make the number smaller. A positive power out of the table gives one as long as the
product stays below the overflow with the errors of its two factors
(`Number.exists_scaled?_of_nonneg`).
-/

namespace ColumnMetadata

namespace Binary64

variable {x y : Binary64}

theorem isZero_iff : x.isZero = true ↔ x.magnitude = 0 := by
  have hpow : (2 : ℚ) ^ x.exponent ≠ 0 := zpow_ne_zero _ two_ne_zero
  rw [isZero, beq_iff_eq, magnitude, mul_eq_zero, or_iff_left hpow, Nat.cast_eq_zero]

theorem fraction_num_pos (h : 0 < x.magnitude) : 0 < x.fraction.1 := by
  have hfraction := fraction_div x
  refine Nat.pos_of_ne_zero fun hzero => ?_
  rw [hzero, Nat.cast_zero, zero_div] at hfraction
  exact h.ne hfraction

/-! ## Products and quotients -/

theorem cast_fraction_mul (x y : Binary64) :
    ((x.fraction.1 * y.fraction.1 : ℕ) : ℚ) / (x.fraction.2 * y.fraction.2 : ℕ) =
      x.magnitude * y.magnitude := by
  rw [← fraction_div, ← fraction_div]
  push_cast
  exact mul_div_mul_comm _ _ _ _

theorem cast_fraction_div (x y : Binary64) :
    ((x.fraction.1 * y.fraction.2 : ℕ) : ℚ) / (x.fraction.2 * y.fraction.1 : ℕ) =
      x.magnitude / y.magnitude := by
  rw [← fraction_div, ← fraction_div]
  push_cast
  exact (div_div_div_eq _ _ _ _).symm

theorem exists_mul (h : x.magnitude * y.magnitude < overflow) : ∃ z, x.mul y = some z := by
  refine exists_ofFraction (Nat.mul_pos (fraction_pos x) (fraction_pos y)) ?_
  rwa [cast_fraction_mul]

theorem exists_div (hy : 0 < y.magnitude) (h : x.magnitude / y.magnitude < overflow) :
    ∃ z, x.div y = some z ∧
      z.magnitude ≤ x.magnitude / y.magnitude + roundingError (x.magnitude / y.magnitude) := by
  have hzero : ¬y.isZero = true := fun hzero => hy.ne' (isZero_iff.1 hzero)
  have hden : 0 < x.fraction.2 * y.fraction.1 :=
    Nat.mul_pos (fraction_pos x) (fraction_num_pos hy)
  rw [← cast_fraction_div] at h ⊢
  obtain ⟨z, hz⟩ := exists_ofFraction hden h
  exact ⟨z, by rw [div, if_neg hzero, hz], (magnitude_bounds hden hz).2⟩

theorem finite_of_mul {z : Binary64} (h : x.mul y = some z) : z.Finite :=
  finite_of_ofFraction (Nat.mul_pos (fraction_pos x) (fraction_pos y)) h

theorem finite_of_div {z : Binary64} (h : x.div y = some z) : z.Finite := by
  unfold div at h
  split at h
  · cases h
  · next hzero =>
    have hy : 0 < y.magnitude :=
      lt_of_le_of_ne (magnitude_nonneg y) fun hy => hzero (isZero_iff.2 hy.symm)
    exact finite_of_ofFraction (Nat.mul_pos (fraction_pos x) (fraction_num_pos hy)) h

/-! ## Integers and powers of ten -/

theorem exists_ofNat {n : ℕ} (h : (n : ℚ) < overflow) : ∃ x, ofNat n = some x :=
  exists_ofFraction Nat.one_pos (by rwa [Nat.cast_one, div_one])

theorem finite_of_ofNat {n : ℕ} (h : ofNat n = some x) : x.Finite :=
  finite_of_ofFraction Nat.one_pos h

/-- An integer is off by one part in `2 ^ 53` at most. -/
theorem magnitude_ofNat_bounds {n : ℕ} (h : ofNat n = some x) :
    n * (1 - 2 ^ (-53 : ℤ)) ≤ x.magnitude ∧ x.magnitude ≤ n * (1 + 2 ^ (-53 : ℤ)) := by
  rcases Nat.eq_zero_or_pos n with rfl | hn
  · cases h
    simp [magnitude, zero]
  · have hone : (1 : ℚ) ≤ n / (1 : ℕ) := by
      rw [Nat.cast_one, div_one]
      exact_mod_cast hn
    have hbounds := magnitude_bounds_of_one_le Nat.one_pos h hone
    rwa [Nat.cast_one, div_one] at hbounds

theorem two_pow_lt_overflow : (2 : ℚ) ^ 100 < overflow := by
  unfold overflow
  calc (2 : ℚ) ^ 100 < (2 ^ 53 - 1 / 2) * 2 ^ (48 : ℤ) := by norm_num
    _ ≤ (2 ^ 53 - 1 / 2) * 2 ^ (971 : ℤ) := by
      have : (0 : ℚ) ≤ 2 ^ 53 - 1 / 2 := by norm_num
      gcongr <;> norm_num

theorem overflow_eq : overflow = 18014398509481983 * 2 ^ 971 / 2 := by
  rw [overflow, show (971 : ℤ) = (971 : ℕ) from rfl, zpow_natCast]
  generalize (2 : ℚ) ^ 971 = unit
  ring

theorem overflow_lt : overflow < 10 ^ (309 : ℤ) := by
  have htop : ((18014398509481983 * 2 ^ 971 : ℕ) : ℚ) < (10 ^ 309 * 2 : ℕ) :=
    Nat.cast_lt.2 (by decide +kernel)
  rw [Nat.cast_mul, Nat.cast_mul, Nat.cast_pow, Nat.cast_pow] at htop
  rw [overflow_eq, div_lt_iff₀ two_pos, show (309 : ℤ) = (309 : ℕ) from rfl, zpow_natCast]
  exact htop

theorem ten_pow_lt_overflow {k : ℕ} (hk : k ≤ 308) : (10 : ℚ) ^ k < overflow := by
  have htop : ((10 ^ 308 * 2 : ℕ) : ℚ) < (18014398509481983 * 2 ^ 971 : ℕ) :=
    Nat.cast_lt.2 (by decide +kernel)
  rw [Nat.cast_mul, Nat.cast_mul, Nat.cast_pow, Nat.cast_pow] at htop
  calc (10 : ℚ) ^ k ≤ 10 ^ 308 := pow_le_pow_right₀ (by norm_num) hk
    _ < overflow := by
      rw [overflow_eq, lt_div_iff₀ two_pos]
      exact htop

/-- The table of powers of ten. -/
theorem exists_powerOfTen {k : ℕ} (hk : k ≤ 308) :
    ∃ p, powerOfTen k = some p ∧ 10 ^ k * (1 - 2 ^ (-53 : ℤ)) ≤ p.magnitude ∧
      p.magnitude ≤ 10 ^ k * (1 + 2 ^ (-53 : ℤ)) := by
  have hcast : ((Nat.pow 10 k : ℕ) : ℚ) = 10 ^ k := Nat.cast_pow 10 k
  obtain ⟨p, hp⟩ := exists_ofNat (hcast ▸ ten_pow_lt_overflow hk)
  have hbounds := magnitude_ofNat_bounds hp
  rw [hcast] at hbounds
  exact ⟨p, hp, hbounds⟩

end Binary64

namespace Number

open Binary64

variable {x y : Binary64} {e : ℤ}

/-! ## Dividing down -/

/-- A number that is not too large stays so, and so does a power that is not positive. -/
theorem exists_scaleDown (n : ℕ) (hx : x.magnitude ≤ 2 ^ 65) (he : e ≤ 0) :
    ∃ y e', scaleDown n x e = some (y, e') ∧ y.magnitude ≤ 2 ^ 65 ∧ e' ≤ 0 := by
  induction n generalizing x e with
  | zero => exact ⟨x, e, rfl, hx, he⟩
  | succ n ih =>
    rw [scaleDown]
    split
    · exact ⟨x, e, rfl, hx, he⟩
    · next hsmall =>
      obtain ⟨p, hp, hlow, -⟩ := exists_powerOfTen (le_refl 308)
      have htwo : (2 : ℚ) ≤ p.magnitude :=
        calc (2 : ℚ) ≤ 10 ^ 1 * (1 - 2 ^ (-53 : ℤ)) := by norm_num
          _ ≤ 10 ^ 308 * (1 - 2 ^ (-53 : ℤ)) := mul_le_mul_of_nonneg_right
            (pow_le_pow_right₀ (by norm_num) (by decide)) (by norm_num)
          _ ≤ p.magnitude := hlow
      have hquotient : x.magnitude / p.magnitude ≤ 2 ^ 64 := by
        rw [div_le_iff₀ (by linarith)]
        linarith
      have herror : roundingError (x.magnitude / p.magnitude) ≤ 2 ^ 64 :=
        max_le (le_trans (mul_le_mul_of_nonneg_right hquotient (by positivity)) (by norm_num))
          (le_trans (zpow_le_zpow_right₀ one_le_two (by decide : (-1075 : ℤ) ≤ 64)) (by norm_num))
      obtain ⟨y, hy, hle⟩ := exists_div (x := x) (y := p) (by linarith)
        (lt_of_le_of_lt hquotient (lt_trans (by norm_num) two_pow_lt_overflow))
      obtain ⟨z, e', hz, hrest⟩ := ih (x := y) (e := e + 308) (by linarith) (by omega)
      exact ⟨z, e', by rw [hp, Option.bind_eq_bind, Option.bind_some, hy]; exact hz, hrest⟩

theorem finite_of_scaleDown {n : ℕ} {e' : ℤ} (hx : x.Finite)
    (h : scaleDown n x e = some (y, e')) : y.Finite := by
  induction n generalizing x e with
  | zero =>
    cases h
    exact hx
  | succ n ih =>
    rw [scaleDown] at h
    split at h
    · cases h
      exact hx
    · obtain ⟨p, -, h⟩ := Option.bind_eq_some_iff.1 h
      obtain ⟨z, hz, h⟩ := Option.bind_eq_some_iff.1 h
      exact ih (finite_of_div hz) h

/-! ## A significand and a power of ten -/

variable {sig : ℕ}

theorem finite_of_scaled? (h : scaled? sig e = some x) : x.Finite := by
  obtain ⟨y, hy, h⟩ := Option.bind_eq_some_iff.1 h
  have hfinite := finite_of_ofNat hy
  split at h
  · split at h
    · cases h
      exact hfinite
    · cases h
  · obtain ⟨⟨z, e'⟩, hz, h⟩ := Option.bind_eq_some_iff.1 h
    dsimp only at h
    split at h
    · cases h
      exact finite_of_scaleDown hfinite hz
    · obtain ⟨p, -, h⟩ := Option.bind_eq_some_iff.1 h
      split at h
      · exact finite_of_mul h
      · exact finite_of_div h

/-- With a power of ten that is not positive, digits always have a value. -/
theorem exists_scaled?_of_nonpos (hsig : sig ≤ maxSignificand) (he : e ≤ 0) :
    ∃ x, scaled? sig e = some x := by
  have hsig' : (sig : ℚ) ≤ 2 ^ 64 := by
    have : (sig : ℚ) ≤ (maxSignificand : ℕ) := by exact_mod_cast hsig
    exact le_trans this (by norm_num [maxSignificand])
  obtain ⟨x, hx⟩ := exists_ofNat (lt_of_le_of_lt hsig' (lt_trans (by norm_num) two_pow_lt_overflow))
  have hmagnitude : x.magnitude ≤ 2 ^ 65 :=
    calc x.magnitude ≤ sig * (1 + 2 ^ (-53 : ℤ)) := (magnitude_ofNat_bounds hx).2
      _ ≤ 2 ^ 64 * 2 := by gcongr; norm_num
      _ = 2 ^ 65 := by norm_num
  obtain ⟨y, e', hy, hle, he'⟩ := exists_scaleDown 3 hmagnitude he
  rw [scaled?, hx, Option.bind_eq_bind, Option.bind_some, if_neg (by omega), hy,
    Option.bind_eq_bind, Option.bind_some]
  dsimp only
  split
  · exact ⟨y, rfl⟩
  · obtain ⟨p, hp, hlow, hhigh⟩ := exists_powerOfTen (k := e'.natAbs) (by omega)
    rw [hp, Option.bind_some]
    split
    · have hzero : e'.natAbs = 0 := by omega
      rw [hzero, pow_zero, one_mul] at hhigh
      refine exists_mul (lt_of_le_of_lt ?_ two_pow_lt_overflow)
      calc y.magnitude * p.magnitude ≤ 2 ^ 65 * (1 + 2 ^ (-53 : ℤ)) :=
            mul_le_mul hle hhigh (magnitude_nonneg p) (by positivity)
        _ ≤ 2 ^ 100 := by norm_num
    · have hone : (1 : ℚ) ≤ 10 ^ e'.natAbs := one_le_pow₀ (by norm_num)
      have hhalf : 1 / 2 ≤ p.magnitude := by
        refine le_trans ?_ hlow
        norm_num
        linarith
      obtain ⟨z, hz, -⟩ := exists_div (x := y) (y := p) (by linarith) (by
        refine lt_of_le_of_lt ?_ two_pow_lt_overflow
        rw [div_le_iff₀ (by linarith)]
        linarith)
      exact ⟨z, hz⟩

/-- With a power of ten from the table, digits have a value as long as the product stays below the
overflow with the errors of both factors. -/
theorem exists_scaled?_of_nonneg (he : 0 ≤ e) (he' : e ≤ 308)
    (h : sig * (10 : ℚ) ^ e * (1 + 2 ^ (-53 : ℤ)) ^ 2 < overflow) :
    ∃ x, scaled? sig e = some x := by
  obtain ⟨k, rfl⟩ := Int.eq_ofNat_of_zero_le he
  rw [zpow_natCast] at h
  have hk : k ≤ 308 := by omega
  have hpow : (1 : ℚ) ≤ 10 ^ k := one_le_pow₀ (by norm_num)
  have herror : (1 : ℚ) ≤ (1 + 2 ^ (-53 : ℤ)) ^ 2 := one_le_pow₀ (by norm_num)
  have hsig : (sig : ℚ) < overflow :=
    calc (sig : ℚ) = sig * 1 * 1 := by rw [mul_one, mul_one]
      _ ≤ sig * 10 ^ k * (1 + 2 ^ (-53 : ℤ)) ^ 2 := by gcongr
      _ < overflow := h
  obtain ⟨x, hx⟩ := exists_ofNat hsig
  obtain ⟨p, hp, -, hhigh⟩ := exists_powerOfTen hk
  have hscale : scaleDown 3 x k = some (x, (k : ℤ)) := by
    rw [scaleDown, if_pos (.inl (by omega))]
  rw [scaled?, hx, Option.bind_eq_bind, Option.bind_some, if_neg (by omega), hscale,
    Option.bind_eq_bind, Option.bind_some]
  dsimp only
  rw [if_neg (by omega), Int.natAbs_natCast, hp, Option.bind_some, if_pos he]
  refine exists_mul (lt_of_le_of_lt ?_ h)
  calc x.magnitude * p.magnitude
      ≤ (sig * (1 + 2 ^ (-53 : ℤ))) * (10 ^ k * (1 + 2 ^ (-53 : ℤ))) :=
        mul_le_mul (magnitude_ofNat_bounds hx).2 hhigh (magnitude_nonneg p) (by positivity)
    _ = sig * 10 ^ k * (1 + 2 ^ (-53 : ℤ)) ^ 2 := by ring

/-! ## A number's text -/

theorem finite_of_ofParts? {p : Parts} (h : ofParts? p = some (.float x)) : x.Finite := by
  have signed {m : Option Binary64} {negative : Bool}
      (hm : ∀ y, m = some y → y.Finite)
      (h : (m.map fun y => Number.float (y.withSign negative)) = some (.float x)) : x.Finite := by
    obtain ⟨y, hy, he⟩ := Option.map_eq_some_iff.1 h
    cases he
    exact ⟨(hm y hy).mantissa, (hm y hy).exponent⟩
  unfold ofParts? at h
  dsimp only at h
  split at h
  · split at h
    · split at h
      · cases h
      · exact signed (fun y hy => finite_of_ofNat hy) h
    · cases h
  · refine signed (fun y hy => ?_) h
    split at hy
    · exact finite_of_scaled? hy
    · split at hy
      · exact finite_of_scaled? hy
      · obtain ⟨-, he⟩ := Option.ite_none_right_eq_some.1 hy
        cases he
        exact finite_zero false

/-- A binary number that is read is one of the format. -/
theorem finite_of_read? {cs : List Char} (h : read? cs = some (.float x)) : x.Finite := by
  obtain ⟨p, -, hp⟩ := Option.bind_eq_some_iff.1 h
  exact finite_of_ofParts? hp

end Number

end ColumnMetadata
