import ColumnMetadata.Proofs.Number.Integers
import ColumnMetadata.Proofs.Number.Range

/-!
# Parts that have a value

Digits are accumulated as long as they fit, and those that are left out make the number smaller
(`fractionOf_le`). So parts whose integer digits fit always have a value when their exponent is
absent or negative (`exists_ofParts?_of_nonpos`). With a positive exponent they have one when the
number that they write stays below the overflow, with some distance for the two roundings
(`exists_ofParts?_of_lt`).
-/

namespace ColumnMetadata.Number

open Decimal Binary64

/-! ## Accumulated digits -/

theorem ofDigitChars_lt {cs : List Char} (h : ∀ c ∈ cs, c.isDigit = true) (sig : ℕ) :
    Nat.ofDigitChars 10 cs sig < (sig + 1) * 10 ^ cs.length := by
  induction cs generalizing sig with
  | nil => simp
  | cons c cs ih =>
    obtain ⟨hc, hcs⟩ := List.forall_mem_cons.1 h
    have hdigit : c.toNat - '0'.toNat ≤ 9 := by
      simp only [Char.isDigit, Bool.and_eq_true, decide_eq_true_eq, UInt32.le_iff_toNat_le] at hc
      exact Nat.sub_le_of_le_add hc.2
    rw [Nat.ofDigitChars_cons, List.length_cons, pow_succ']
    calc Nat.ofDigitChars 10 cs (10 * sig + (c.toNat - '0'.toNat))
        < (10 * sig + (c.toNat - '0'.toNat) + 1) * 10 ^ cs.length := ih hcs _
      _ ≤ (10 * (sig + 1)) * 10 ^ cs.length := Nat.mul_le_mul_right _ (by omega)
      _ = (sig + 1) * (10 * 10 ^ cs.length) := by ring

theorem mul_pow_le_ofDigitChars (cs : List Char) (sig : ℕ) :
    sig * 10 ^ cs.length ≤ Nat.ofDigitChars 10 cs sig := by
  rw [Nat.ofDigitChars_eq_ofDigitChars_zero, Nat.mul_comm]
  exact Nat.le_add_right _ _

/-- Sixteen integer digits are accumulated without a loss. -/
theorem wholeOf_of_length_le {cs : List Char} (h : ∀ c ∈ cs, c.isDigit = true)
    (hlength : cs.length ≤ 16) :
    wholeOf cs 0 = (Nat.ofDigitChars 10 cs 0, 0) ∧ Nat.ofDigitChars 10 cs 0 ≤ maxSignificand := by
  have hfits : Nat.ofDigitChars 10 cs 0 ≤ maxSignificand := by
    have hlt := ofDigitChars_lt h 0
    have hpow : 10 ^ cs.length ≤ 10 ^ 16 := Nat.pow_le_pow_right (by decide) hlength
    unfold maxSignificand
    omega
  exact ⟨wholeOf_eq_ofDigitChars hfits, hfits⟩

/-- What is accumulated of the integer digits fits. -/
theorem wholeOf_le (cs : List Char) {sig : ℕ} (hsig : sig ≤ maxSignificand) :
    (wholeOf cs sig).1 ≤ maxSignificand := by
  induction cs generalizing sig with
  | nil => exact hsig
  | cons c cs ih =>
    rw [wholeOf]
    split
    · next hfits => exact ih hfits
    · exact hsig

/-- What is accumulated of the fraction digits fits, and stays below what the digits write. -/
theorem fractionOf_le (cs : List Char) {sig : ℕ} (hsig : sig ≤ maxSignificand) :
    (fractionOf cs sig).1 ≤ maxSignificand ∧ (fractionOf cs sig).2 ≤ cs.length ∧
      (fractionOf cs sig).1 * 10 ^ (cs.length - (fractionOf cs sig).2) ≤
        Nat.ofDigitChars 10 cs sig := by
  induction cs generalizing sig with
  | nil => simpa [fractionOf] using hsig
  | cons c cs ih =>
    have hnext : 10 * sig + (c.toNat - '0'.toNat) = sig * 10 + digitValue c := by
      rw [digitValue, Nat.mul_comm]
    rw [fractionOf]
    dsimp only
    split
    · next hfits =>
      obtain ⟨hmax, htaken, hle⟩ := ih hfits
      refine ⟨hmax, Nat.succ_le_succ htaken, ?_⟩
      rw [List.length_cons, Nat.add_sub_add_right, Nat.ofDigitChars_cons, hnext]
      exact hle
    · exact ⟨hsig, Nat.zero_le _, mul_pow_le_ofDigitChars _ _⟩

theorem exponentValue?_digitsOf {n : ℕ} (h : n ≤ maxWrittenExponent) :
    exponentValue? (digitsOf n) = some n := by
  have hvalue : (digitsOf n).foldl (fun n c => n * 10 + digitValue c) 0 = n := by
    have hfold : (fun n c => n * 10 + digitValue c) =
        fun n (c : Char) => 10 * n + (c.toNat - '0'.toNat) :=
      funext fun n => funext fun c => by rw [digitValue, Nat.mul_comm]
    rw [hfold]
    exact Nat.ofDigitChars_ten_toDigits
  rw [exponentValue?, hvalue, if_pos h]

/-- An integer that is read is held exactly. -/
theorem inRange_of_read? {cs : List Char} {i : ℤ} (h : read? cs = some (.integer i)) :
    InRange i := by
  obtain ⟨p, -, h⟩ := Option.bind_eq_some_iff.1 h
  have hsig := wholeOf_le p.whole (Nat.zero_le maxSignificand)
  unfold maxSignificand at hsig
  unfold ofParts? at h
  generalize wholeOf p.whole 0 = accumulated at h hsig
  dsimp only at h
  split at h
  · split at h
    · split at h
      · cases h
        exact ⟨by omega, by omega⟩
      · obtain ⟨x, -, he⟩ := Option.map_eq_some_iff.1 h
        cases he
    · cases h
      exact ⟨by omega, by omega⟩
  · obtain ⟨x, -, he⟩ := Option.map_eq_some_iff.1 h
    cases he

/-! ## The value of parts -/

theorem exists_ofNat_of_le {sig : ℕ} (hsig : sig ≤ maxSignificand) :
    ∃ x, ofNat sig = some x := by
  have hcast : (sig : ℚ) ≤ (maxSignificand : ℕ) := by exact_mod_cast hsig
  exact exists_ofNat (lt_of_le_of_lt (le_trans hcast (by norm_num [maxSignificand]))
    two_pow_lt_overflow)

/-- The digits that are accumulated have a value under an exponent: with none, when they have one as
they are; with a written one, when it is small enough to be added, or else when it is negative. -/
structure Scales (sig : ℕ) (start : ℤ) (exponent : Option (Bool × List Char)) : Prop where
  absent : exponent = none → ∃ x, scaled? sig start = some x
  excessive : ∀ e ∈ exponent, exponentValue? e.2 = none → e.1 = true
  written : ∀ e ∈ exponent, ∀ n, exponentValue? e.2 = some n →
    ∃ x, scaled? sig (clampExponent (if e.1 then start - n else start + n)) = some x

theorem Scales.exists_magnitude {sig : ℕ} {start : ℤ} {exponent : Option (Bool × List Char)}
    (h : Scales sig start exponent) :
    ∃ x, (match exponent with
      | none => scaled? sig start
      | some (negative, digits) =>
        match exponentValue? digits with
        | some n => scaled? sig (clampExponent (if negative then start - n else start + n))
        | none => if sig = 0 ∨ negative then some (zero false) else none) = some x := by
  cases exponent with
  | none => exact h.absent rfl
  | some e =>
    cases hvalue : exponentValue? e.2 with
    | some n =>
      dsimp only
      rw [hvalue]
      exact h.written e rfl n hvalue
    | none =>
      dsimp only
      rw [hvalue]
      exact ⟨_, if_pos (.inr (h.excessive e rfl hvalue))⟩

section Parts

variable {p : Parts} {sig : ℕ} (hwhole : wholeOf p.whole 0 = (sig, 0)) (hsig : sig ≤ maxSignificand)

include hwhole hsig in
/-- Parts have a value when their digits have one under their exponent. -/
theorem exists_ofParts?
    (h : Scales (fractionOf (p.fraction.getD []) sig).1
      (-(fractionOf (p.fraction.getD []) sig).2) p.exponent) :
    ∃ x, ofParts? p = some x := by
  unfold ofParts?
  rw [hwhole, ← Option.isSome_iff_exists]
  dsimp only
  rw [Int.natCast_zero]
  by_cases hinteger : p.fraction = none ∧ p.exponent = none
  · rw [if_pos ⟨rfl, hinteger⟩]
    split
    · split
      · rfl
      · rw [Option.isSome_map]
        exact Option.isSome_iff_exists.2 (exists_ofNat_of_le hsig)
    · rfl
  · rw [if_neg (fun he => hinteger he.2), Option.isSome_map]
    rw [← zero_sub] at h
    cases hfraction : p.fraction with
    | none =>
      rw [hfraction] at h
      exact Option.isSome_iff_exists.2 h.exists_magnitude
    | some ds =>
      rw [hfraction] at h
      exact Option.isSome_iff_exists.2 h.exists_magnitude

include hwhole hsig in
/-- Parts without a positive exponent have a value. -/
theorem exists_ofParts?_of_nonpos (h : ∀ e ∈ p.exponent, e.1 = true) :
    ∃ x, ofParts? p = some x := by
  have hfits := (fractionOf_le (p.fraction.getD []) hsig).1
  refine exists_ofParts? hwhole hsig ⟨fun _ => exists_scaled?_of_nonpos hfits (by omega),
    fun e he _ => h e he, fun e he n _ => exists_scaled?_of_nonpos hfits ?_⟩
  rw [if_pos (h e he)]
  unfold clampExponent
  omega

include hwhole hsig in
/-- Parts with a positive exponent have a value when what they write stays below the overflow with
the errors of two roundings. -/
theorem exists_ofParts?_of_lt {k : ℕ} (hexponent : p.exponent = some (false, digitsOf k))
    (hk : k ≤ 308)
    (h : (Nat.ofDigitChars 10 (p.fraction.getD []) sig : ℚ) *
        10 ^ ((k : ℤ) - (p.fraction.getD []).length) * (1 + 2 ^ (-53 : ℤ)) ^ 2 < overflow) :
    ∃ x, ofParts? p = some x := by
  obtain ⟨hfits, htaken, hle⟩ := fractionOf_le (p.fraction.getD []) hsig
  have hvalue : exponentValue? (digitsOf k) = some k :=
    exponentValue?_digitsOf (by unfold maxWrittenExponent; omega)
  have hwritten : ∀ e ∈ p.exponent, e = (false, digitsOf k) := fun e he =>
    Option.some_injective _ (he.symm.trans hexponent)
  refine exists_ofParts? hwhole hsig ⟨fun hnone => absurd (hnone.symm.trans hexponent) nofun,
    fun e he hnone => ?_, fun e he n hn => ?_⟩
  · rw [hwritten e he, hvalue] at hnone
    cases hnone
  rw [hwritten e he] at hn ⊢
  cases hn.symm.trans hvalue
  generalize fractionOf (p.fraction.getD []) sig = taken at hfits htaken hle ⊢
  generalize p.fraction.getD [] = fraction at h htaken hle
  rw [if_neg Bool.false_ne_true]
  rcases Int.le_total (-taken.2 + k) 0 with hneg | hpos
  · refine exists_scaled?_of_nonpos hfits ?_
    unfold clampExponent
    omega
  · have hclamp : clampExponent (-taken.2 + k) = k - taken.2 := by
      unfold clampExponent
      omega
    rw [hclamp]
    refine exists_scaled?_of_nonneg (by omega) (by omega) (lt_of_le_of_lt ?_ h)
    have hcast : (taken.1 * 10 ^ (fraction.length - taken.2) : ℚ) ≤
        Nat.ofDigitChars 10 fraction sig := by exact_mod_cast hle
    have hsplit : (10 : ℚ) ^ ((k : ℤ) - taken.2) =
        10 ^ (fraction.length - taken.2) * 10 ^ ((k : ℤ) - fraction.length) := by
      rw [← zpow_natCast, ← zpow_add₀ (by norm_num)]
      congr 1
      omega
    rw [hsplit, ← mul_assoc]
    gcongr

end Parts

end ColumnMetadata.Number
