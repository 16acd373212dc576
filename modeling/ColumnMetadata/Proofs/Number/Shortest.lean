import ColumnMetadata.Number.Shortest
import ColumnMetadata.Proofs.Number.Acceptance

/-!
# The text of a decimal is accepted

The decimal that is written for a binary number lies in the interval of the reals that round to it
(`Decimal.shortest_cases`), and without the zeros at its end it is the same number. Its text is that
of well-formed parts (`Decimal.text_layout`), and the parts have a value unless the decimal comes
too close to the overflow (`Decimal.exists_ofParts?_layout`).
-/

namespace ColumnMetadata.Decimal

open Number Binary64

/-- The number that a decimal is. -/
def value (d : Decimal) : ℚ := d.digits * 10 ^ d.exponent

/-! ## Trimming -/

theorem trimZeros_spec (n : ℕ) (d : Decimal) (h : 0 < d.digits) :
    (trimZeros n d).value = d.value ∧ 0 < (trimZeros n d).digits := by
  induction n generalizing d with
  | zero => exact ⟨rfl, h⟩
  | succ n ih =>
    rw [trimZeros]
    split
    · next hzero =>
      have hdigits : d.digits = d.digits / 10 * 10 := by omega
      obtain ⟨hvalue, hpos⟩ := ih ⟨d.digits / 10, d.exponent + 1⟩ (by
        dsimp only
        omega)
      refine ⟨hvalue.trans ?_, hpos⟩
      rw [value, value, zpow_add_one₀ (by norm_num), hdigits, Nat.mul_div_cancel _ (by decide)]
      push_cast
      ring
    · exact ⟨rfl, h⟩

/-! ## The interval -/

theorem Interval.contains_bounds {i : Interval} {num den : ℕ} (h : i.contains num den = true) :
    i.low * den ≤ num ∧ num ≤ i.high * den := by
  unfold contains at h
  split at h
  · simpa using h
  · simp only [Bool.and_eq_true, decide_eq_true_eq] at h
    exact ⟨h.1.le, h.2.le⟩

/-- A multiple of a power of ten in an interval above zero. -/
theorem Interval.contains_grid {i : Interval} {quarter k : ℤ} {c : ℕ} (hlow : 0 < i.low)
    (h : i.contains (c * (Nat.pow 10 k.toNat * Nat.pow 2 (-quarter).toNat))
      (Nat.pow 10 (-k).toNat * Nat.pow 2 quarter.toNat) = true) :
    0 < c ∧ (c : ℚ) * 10 ^ k ≤ i.high * 2 ^ quarter := by
  have hten := natPow_toNat_div (b := 10) (by decide) k
  have htwo := natPow_toNat_div (b := 2) (by decide) (-quarter)
  rw [neg_neg] at htwo
  have hdown : 0 < Nat.pow 10 (-k).toNat * Nat.pow 2 quarter.toNat :=
    Nat.mul_pos (Nat.pow_pos (by decide)) (Nat.pow_pos (by decide))
  obtain ⟨hmin, hmax⟩ := contains_bounds h
  constructor
  · refine Nat.pos_of_ne_zero fun hzero => ?_
    rw [hzero, Nat.zero_mul, Nat.le_zero, Nat.mul_eq_zero] at hmin
    omega
  · generalize Nat.pow 10 k.toNat = a at hten hmax
    generalize Nat.pow 10 (-k).toNat = b at hten hmax hdown
    generalize Nat.pow 2 (-quarter).toNat = a' at htwo hmax
    generalize Nat.pow 2 quarter.toNat = b' at htwo hmax hdown
    have hpos : (0 : ℚ) < b * b' := by exact_mod_cast hdown
    have hle : (c * (a * a') : ℚ) ≤ i.high * (b * b') := by exact_mod_cast hmax
    have hunit : (2 : ℚ) ^ (-quarter) * 2 ^ quarter = 1 := by
      rw [← zpow_add₀ two_ne_zero, neg_add_cancel, zpow_zero]
    calc (c : ℚ) * 10 ^ k = c * 10 ^ k * (2 ^ (-quarter) * 2 ^ quarter) := by rw [hunit, mul_one]
      _ = c * (a * a') / (b * b') * 2 ^ quarter := by
        rw [Nat.cast_ofNat] at hten htwo
        rw [← hten, ← htwo]
        ring
      _ ≤ i.high * 2 ^ quarter := by
        rw [← div_le_iff₀ hpos] at hle
        gcongr

theorem onGrid_bounds {i : Interval} {quarter k : ℤ} {d : Decimal} (hlow : 0 < i.low)
    (h : onGrid i quarter k = some d) : 0 < d.digits ∧ d.value ≤ i.high * 2 ^ quarter := by
  unfold onGrid at h
  dsimp only at h
  split at h
  · next hbelow habove =>
    split at h
    · cases h
      exact Interval.contains_grid hlow hbelow
    · cases h
      exact Interval.contains_grid hlow habove
  · next hbelow _ =>
    cases h
    exact Interval.contains_grid hlow hbelow
  · next _ habove =>
    cases h
    exact Interval.contains_grid hlow habove
  · cases h

/-- The decimal that is written exceeds the number by half of its last bit at most. -/
theorem shortest_cases {x : Binary64} (hx : 0 < x.mantissa) :
    shortest x = ⟨0, 0⟩ ∨
      (0 < (shortest x).digits ∧ (shortest x).value ≤ (x.mantissa + 1 / 2) * 2 ^ x.exponent) := by
  have hlow : 0 < (Interval.around x.mantissa x.exponent).low := by
    unfold Interval.around
    dsimp only
    split <;> omega
  have hhigh : ((Interval.around x.mantissa x.exponent).high : ℚ) * 2 ^ (x.exponent - 2) =
      (x.mantissa + 1 / 2) * 2 ^ x.exponent := by
    rw [Interval.around, zpow_sub₀ two_ne_zero]
    push_cast
    ring
  unfold shortest
  dsimp only
  cases hfound : (List.range 17).findSome? fun (n : Nat) =>
      onGrid (Interval.around x.mantissa x.exponent) (x.exponent - 2)
        (floorLog10 ((Interval.around x.mantissa x.exponent).mid *
          Nat.pow 2 (x.exponent - 2).toNat) (Nat.pow 2 (-(x.exponent - 2)).toNat) - n) with
  | none => exact .inl rfl
  | some d =>
    obtain ⟨n, -, hn⟩ := List.exists_of_findSome?_eq_some hfound
    rw [← hhigh]
    exact .inr (onGrid_bounds hlow hn)

/-! ## The layout of a decimal -/

/-- The power of ten of the first digit. -/
def first (d : Decimal) : ℤ := d.exponent + (digitsOf d.digits).length - 1

/-- The parts of a decimal's text, under a sign. -/
def layout (negative : Bool) (d : Decimal) : Parts :=
  let ds := digitsOf d.digits
  if -5 ≤ d.first ∧ d.first ≤ 15 then
    if 0 ≤ d.exponent then ⟨negative, ds ++ List.replicate d.exponent.toNat '0', some ['0'], none⟩
    else if 0 ≤ d.first then
      ⟨negative, ds.take (d.first.toNat + 1), some (ds.drop (d.first.toNat + 1)), none⟩
    else ⟨negative, ['0'], some (List.replicate (-d.first - 1).toNat '0' ++ ds), none⟩
  else
    ⟨negative, ds.take 1, if ds.length = 1 then none else some (ds.drop 1),
      some (decide (d.first < 0), digitsOf d.first.natAbs)⟩

@[simp] theorem layout_negative (negative : Bool) (d : Decimal) :
    (layout negative d).negative = negative := by
  unfold layout
  dsimp only
  split_ifs <;> rfl

theorem text_layout (negative : Bool) (d : Decimal) :
    (layout negative (trimZeros 20 d)).text = if negative then '-' :: d.text else d.text := by
  have hunsigned : (layout negative (trimZeros 20 d)).unsignedText = d.text := by
    unfold layout Decimal.text first Parts.unsignedText
    dsimp only
    generalize trimZeros 20 d = t
    split
    · split_ifs <;> simp [Parts.fractionText, Parts.exponentText]
    · have hsign (e : ℤ) : (if 0 ≤ e then '+' else '-') = if e < 0 then '-' else '+' := by
        by_cases he : e < 0
        · rw [if_neg (not_le.2 he), if_pos he]
        · rw [if_pos (not_lt.1 he), if_neg he]
      generalize t.exponent + ((digitsOf t.digits).length : ℤ) - 1 = e
      rw [hsign]
      split_ifs <;> simp [Parts.fractionText, Parts.exponentText, *]
  rw [Parts.text, layout_negative, hunsigned]

section Layout

variable {d : Decimal} (hd : 0 < d.digits)

include hd in
/-- The digits of a positive number begin with one that is not zero. -/
theorem exists_head : ∃ c cs, digitsOf d.digits = c :: cs ∧ c ≠ '0' := by
  have hhead := digitsOf_head_ne_zero hd
  cases hds : digitsOf d.digits with
  | nil => exact absurd hds (digitsOf_ne_nil _)
  | cons c cs =>
    rw [hds] at hhead
    exact ⟨c, cs, rfl, fun hc => hhead (by rw [hc, List.head?_cons])⟩

theorem isWhole_cons {c : Char} (hc : c ≠ '0') (cs : List Char) : isWhole (c :: cs) = true := by
  unfold isWhole
  split
  · next h => cases h
  · rfl
  · next h =>
    cases h
    exact absurd rfl hc
  · rfl

include hd in
theorem wellFormed_layout (negative : Bool) : (layout negative d).WellFormed := by
  obtain ⟨c, cs, hds, hc⟩ := exists_head hd
  have hdigits : ∀ e ∈ c :: cs, e.isDigit = true := fun e he => isDigit_of_mem_digitsOf (hds ▸ he)
  have hzeros (n : ℕ) : ∀ e ∈ List.replicate n '0', e.isDigit = true := by
    intro e he
    rw [List.eq_of_mem_replicate he]
    rfl
  obtain ⟨hdigit, hcs⟩ := List.forall_mem_cons.1 hdigits
  have hexponent : ∀ e ∈ some (decide (d.first < 0), digitsOf d.first.natAbs),
      e.2 ≠ [] ∧ ∀ c ∈ e.2, c.isDigit = true := by
    rintro e ⟨⟩
    exact ⟨digitsOf_ne_nil _, fun _ he => isDigit_of_mem_digitsOf he⟩
  have hfirst : d.first = d.exponent + cs.length := by
    rw [first, hds, List.length_cons]
    push_cast
    ring
  unfold layout
  rw [hds]
  dsimp only
  split_ifs with hpoint hinteger hwhole hlength
  · exact ⟨isWhole_cons hc _, List.forall_mem_append.2 ⟨hdigits, hzeros _⟩, by
      rintro ds ⟨⟩
      exact ⟨List.cons_ne_nil _ _, List.forall_mem_singleton.2 rfl⟩, nofun⟩
  · refine ⟨isWhole_cons hc _, fun e he => hdigits e (List.mem_of_mem_take he), ?_, nofun⟩
    rintro ds ⟨⟩
    refine ⟨fun hnil => ?_, fun e he => hdigits e (List.mem_of_mem_drop he)⟩
    rw [List.drop_eq_nil_iff, List.length_cons] at hnil
    omega
  · refine ⟨rfl, List.forall_mem_singleton.2 rfl, ?_, nofun⟩
    rintro ds ⟨⟩
    exact ⟨List.append_ne_nil_of_right_ne_nil _ (List.cons_ne_nil _ _),
      List.forall_mem_append.2 ⟨hzeros _, hdigits⟩⟩
  · exact ⟨isWhole_cons hc _, List.forall_mem_singleton.2 hdigit, nofun, hexponent⟩
  · refine ⟨isWhole_cons hc _, List.forall_mem_singleton.2 hdigit, ?_, hexponent⟩
    rintro ds ⟨⟩
    refine ⟨fun hnil => hlength ?_, hcs⟩
    rw [List.length_cons, show cs = [] from hnil, List.length_nil]

include hd in
theorem whole_layout_length_le (negative : Bool) : (layout negative d).whole.length ≤ 16 := by
  obtain ⟨c, cs, hds, -⟩ := exists_head hd
  unfold layout
  have hfirst : d.first = d.exponent + (digitsOf d.digits).length - 1 := rfl
  dsimp only
  split_ifs with hpoint hinteger hwhole
  · rw [List.length_append, List.length_replicate]
    omega
  · exact le_trans (List.length_take_le _ _) (by omega)
  · exact Nat.le_of_ble_eq_true rfl
  · exact le_trans (List.length_take_le _ _) (by decide)
  · exact le_trans (List.length_take_le _ _) (by decide)

/-! ## The value of the layout -/

include hd in
/-- The first digit stands at its power of ten. -/
theorem ten_zpow_first_le : (10 : ℚ) ^ d.first ≤ d.value := by
  have hlength : 10 ^ ((digitsOf d.digits).length - 1) ≤ d.digits := by
    rcases Nat.eq_zero_or_pos ((digitsOf d.digits).length - 1) with hone | hmore
    · rw [hone, pow_zero]
      exact hd
    · refine not_lt.1 fun hlt => ?_
      have hshort := (Nat.length_toDigits_le_iff (by decide) hmore).2 hlt
      unfold digitsOf at hshort hmore
      omega
  have hpos : 0 < (digitsOf d.digits).length := Nat.length_toDigits_pos
  have hfirst : d.first = ((digitsOf d.digits).length - 1 : ℕ) + d.exponent := by
    unfold first
    omega
  rw [hfirst, zpow_add₀ (by norm_num), zpow_natCast, value]
  have hcast : (10 : ℚ) ^ ((digitsOf d.digits).length - 1) ≤ d.digits := by exact_mod_cast hlength
  gcongr

include hd in
/-- A decimal that stays below the overflow has 309 digits in front of the point at most. -/
theorem first_le (h : d.value * (1 + 2 ^ (-53 : ℤ)) ^ 2 < overflow) : d.first ≤ 308 := by
  have hvalue : (10 : ℚ) ^ d.first < 10 ^ (309 : ℤ) :=
    calc (10 : ℚ) ^ d.first ≤ d.value * 1 := by
          rw [mul_one]
          exact ten_zpow_first_le hd
      _ ≤ d.value * (1 + 2 ^ (-53 : ℤ)) ^ 2 := mul_le_mul_of_nonneg_left
        (one_le_pow₀ (by norm_num)) (mul_nonneg (Nat.cast_nonneg _) (by positivity))
      _ < overflow := h
      _ < 10 ^ (309 : ℤ) := overflow_lt
  have := (zpow_lt_zpow_iff_right₀ (by norm_num)).1 hvalue
  omega

theorem layout_of_lt (negative : Bool) (h : 15 < d.first) :
    layout negative d = ⟨negative, (digitsOf d.digits).take 1,
      if (digitsOf d.digits).length = 1 then none else some ((digitsOf d.digits).drop 1),
      some (false, digitsOf d.first.natAbs)⟩ := by
  have hsign : decide (d.first < 0) = false := decide_eq_false (by omega)
  unfold layout
  dsimp only
  rw [if_neg (by omega), hsign]

/-- The fraction digits of a text with one integer digit. -/
theorem getD_drop (ds : List Char) :
    (if ds.length = 1 then none else some (ds.drop 1)).getD [] = ds.drop 1 := by
  split
  · next h => exact (List.drop_eq_nil_of_le h.le).symm
  · rfl

include hd in
/-- The parts of a decimal's text have a value, unless the decimal comes too close to the overflow.
-/
theorem exists_ofParts?_layout (negative : Bool)
    (h : d.value * (1 + 2 ^ (-53 : ℤ)) ^ 2 < overflow) :
    ∃ x, ofParts? (layout negative d) = some x := by
  obtain ⟨hwhole, hsig⟩ := wholeOf_of_length_le (wellFormed_layout hd negative).whole
    (whole_layout_length_le hd negative)
  by_cases hbig : 15 < d.first
  · have hk := first_le hd h
    rw [layout_of_lt negative hbig] at hwhole hsig ⊢
    refine exists_ofParts?_of_lt hwhole hsig rfl (by omega) ?_
    dsimp only
    rw [getD_drop, ← Nat.ofDigitChars_append, List.take_append_drop]
    have hdigits : Nat.ofDigitChars 10 (digitsOf d.digits) 0 = d.digits :=
      Nat.ofDigitChars_ten_toDigits
    have hpos : 0 < (digitsOf d.digits).length := Nat.length_toDigits_pos
    have hexponent : (d.first.natAbs : ℤ) - ((digitsOf d.digits).drop 1).length = d.exponent := by
      rw [List.length_drop, Int.natAbs_of_nonneg (by omega), first]
      omega
    rwa [hdigits, hexponent]
  · refine exists_ofParts?_of_nonpos hwhole hsig ?_
    unfold layout
    dsimp only
    split_ifs with hpoint
    · exact nofun
    · exact nofun
    · exact nofun
    all_goals
      rintro e ⟨⟩
      exact decide_eq_true (by omega)

end Layout

end ColumnMetadata.Decimal
