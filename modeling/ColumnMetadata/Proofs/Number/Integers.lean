import ColumnMetadata.Proofs.Number.Parts

/-!
# Integers are read back

The text of an integer of 64 bits is read as that integer (`read?_integerText`). The digits of a
natural number are decimal digits without a leading zero, and the significand that they accumulate
to is the number itself as long as it fits into 64 bits (`wholeOf_digitsOf`). A text that is read as
a number at all has nothing but digits, signs, points and exponent marks (`isNumeral_of_read?`).
-/

namespace ColumnMetadata.Number

open Decimal

/-! ## The digits of a natural number -/

theorem isDigit_of_mem_digitsOf {n : Nat} {c : Char} (h : c ∈ digitsOf n) : c.isDigit = true :=
  Nat.isDigit_of_mem_toDigits (by decide) (by decide) h

theorem digitsOf_ne_nil (n : Nat) : digitsOf n ≠ [] := Nat.toDigits_ne_nil

/-- A number in front of a further digit. -/
theorem digitsOf_of_ten_le {n : Nat} (h : 10 ≤ n) :
    digitsOf n = digitsOf (n / 10) ++ [Nat.digitChar (n % 10)] :=
  Nat.toDigits_of_base_le (by decide) h

theorem digitChar_ne_zero : ∀ n < 10, 0 < n → Nat.digitChar n ≠ '0' := by decide

/-- Only zero begins with the digit zero. -/
theorem digitsOf_head_ne_zero {n : Nat} (h : 0 < n) : (digitsOf n).head? ≠ some '0' := by
  induction n using Nat.strongRecOn with
  | _ n ih =>
    by_cases hn : n < 10
    · have : digitsOf n = [Nat.digitChar n] := Nat.toDigits_of_lt_base hn
      rw [this, List.head?_cons]
      exact fun he => digitChar_ne_zero n hn h (Option.some.inj he)
    · rw [digitsOf_of_ten_le (by omega)]
      have hd := ih (n / 10) (by omega) (by omega)
      cases hds : digitsOf (n / 10) with
      | nil => exact absurd hds (digitsOf_ne_nil _)
      | cons c cs => rw [hds] at hd; simpa using hd

/-- The digits of a natural number are the integer digits of a number's text. -/
theorem isWhole_digitsOf (n : Nat) : isWhole (digitsOf n) = true := by
  rcases Nat.eq_zero_or_pos n with rfl | hn
  · decide
  · have h0 := digitsOf_head_ne_zero hn
    unfold isWhole
    split
    · next h => exact absurd h (digitsOf_ne_nil n)
    · rfl
    · next cs _ hds => rw [hds] at h0; exact absurd rfl h0
    · rfl

/-! ## The significand -/

/-- Reading digits behind a significand does not make it smaller. -/
theorem le_ofDigitChars (cs : List Char) (sig : Nat) : sig ≤ Nat.ofDigitChars 10 cs sig := by
  induction cs generalizing sig with
  | nil => simp
  | cons c cs ih =>
    rw [Nat.ofDigitChars_cons]
    have := ih (10 * sig + (c.toNat - '0'.toNat))
    omega

/-- No digit is dropped as long as the whole number fits. -/
theorem wholeOf_eq_ofDigitChars {cs : List Char} {sig : Nat}
    (h : Nat.ofDigitChars 10 cs sig ≤ maxSignificand) :
    wholeOf cs sig = (Nat.ofDigitChars 10 cs sig, 0) := by
  induction cs generalizing sig with
  | nil => simp [wholeOf]
  | cons c cs ih =>
    rw [Nat.ofDigitChars_cons] at h ⊢
    have hnext : sig * 10 + digitValue c = 10 * sig + (c.toNat - '0'.toNat) := by
      rw [digitValue, Nat.mul_comm]
    have hle := le_ofDigitChars cs (10 * sig + (c.toNat - '0'.toNat))
    rw [wholeOf, hnext, if_pos (by omega), ih h]

theorem wholeOf_digitsOf {n : Nat} (h : n ≤ maxSignificand) : wholeOf (digitsOf n) 0 = (n, 0) := by
  have hn : Nat.ofDigitChars 10 (digitsOf n) 0 = n := Nat.ofDigitChars_ten_toDigits
  rw [wholeOf_eq_ofDigitChars (by rw [hn]; exact h), hn]

/-! ## Reading an integer's text -/

theorem wellFormed_digitsOf (negative : Bool) (n : Nat) :
    Parts.WellFormed ⟨negative, digitsOf n, none, none⟩ where
  isWhole := isWhole_digitsOf n
  whole _ h := isDigit_of_mem_digitsOf h
  fraction := nofun
  exponent := nofun

theorem parts?_digitsOf (n : Nat) : parts? (digitsOf n) = some ⟨false, digitsOf n, none, none⟩ := by
  have h := parts?_text (wellFormed_digitsOf false n)
  rwa [Parts.text, Parts.unsignedText, Parts.fractionText, Parts.exponentText, List.append_nil,
    List.append_nil, if_neg Bool.false_ne_true] at h

theorem parts?_minus_digitsOf (n : Nat) :
    parts? ('-' :: digitsOf n) = some ⟨true, digitsOf n, none, none⟩ := by
  have h := parts?_text (wellFormed_digitsOf true n)
  rwa [Parts.text, Parts.unsignedText, Parts.fractionText, Parts.exponentText, List.append_nil,
    List.append_nil, if_pos rfl] at h

/-- The text of an integer that is held exactly is read as that integer. -/
theorem read?_integerText {i : Int} (h : InRange i) : read? (integerText i) = some (.integer i) := by
  obtain ⟨hlow, hhigh⟩ := h
  unfold integerText read?
  split
  · next hneg =>
    rw [parts?_minus_digitsOf, Option.bind_some, ofParts?,
      wholeOf_digitsOf (by unfold maxSignificand; omega)]
    have hsig : 0 < i.natAbs ∧ i.natAbs ≤ 0x8000000000000000 := by omega
    have hi : -(i.natAbs : Int) = i := by omega
    simp only [hsig, and_self, ↓reduceIte, hi]
  · next hpos =>
    rw [parts?_digitsOf, Option.bind_some, ofParts?,
      wholeOf_digitsOf (by unfold maxSignificand; omega)]
    have hi : (i.natAbs : Int) = i := by omega
    simp only [and_self, ↓reduceIte, Bool.false_eq_true, hi]

/-! ## The characters of a number's text -/

/-- The characters that a number's text may have. -/
def isNumeral (c : Char) : Bool :=
  c.isDigit || c == '-' || c == '+' || c == '.' || c == 'e' || c == 'E'

theorem isNumeral_of_isDigit {c : Char} (h : c.isDigit = true) : isNumeral c = true := by
  simp [isNumeral, h]

theorem isNumeral_of_mem_takeWhile {c : Char} {cs : List Char}
    (h : c ∈ cs.takeWhile Char.isDigit) : isNumeral c = true :=
  isNumeral_of_isDigit (List.all_eq_true.1 List.all_takeWhile c h)

theorem isNumeral_of_exponentOf? {cs : List Char} {e : Option (Bool × List Char)}
    (h : exponentOf? cs = some e) : ∀ c ∈ cs, isNumeral c = true := by
  have digits {negative : Bool} {ds : List Char}
      (h : (if (!ds.isEmpty && ds.all Char.isDigit) = true then some (some (negative, ds))
        else none) = some e) : ∀ d ∈ ds, isNumeral d = true := by
    split at h
    · next hds =>
      rw [Bool.and_eq_true, List.all_eq_true] at hds
      exact fun d hd => isNumeral_of_isDigit (hds.2 d hd)
    · cases h
  unfold exponentOf? at h
  split at h
  · simp
  · next c cs =>
    split at h
    · next hmark =>
      have hc : isNumeral c = true := by rcases hmark with rfl | rfl <;> rfl
      refine List.forall_mem_cons.2 ⟨hc, ?_⟩
      split at h
      next negative ds hsign =>
        have hds := digits h
        split at hsign
        · obtain ⟨-, rfl⟩ := hsign
          exact List.forall_mem_cons.2 ⟨rfl, hds⟩
        · obtain ⟨-, rfl⟩ := hsign
          exact List.forall_mem_cons.2 ⟨rfl, hds⟩
        · obtain ⟨-, rfl⟩ := hsign
          exact hds
    · cases h

/-- Behind its sign, a number's text begins with a digit and has nothing but numerals. -/
theorem isNumeral_of_parts? {cs : List Char} {p : Parts} (h : parts? cs = some p) :
    (∀ c ∈ cs, isNumeral c = true) ∧ ∃ c rest, cs = c :: rest ∧ (c.isDigit = true ∨ c = '-') := by
  unfold parts? at h
  split at h
  next negative body hsign =>
    dsimp only at h
    split at h
    · next hwhole =>
      have hbody : ∀ c ∈ body, isNumeral c = true := by
        intro c hc
        rw [← List.takeWhile_append_dropWhile (p := Char.isDigit) (l := body)] at hc
        rcases List.mem_append.1 hc with hc | hc
        · exact isNumeral_of_mem_takeWhile hc
        · split at h
          · next rest hrest =>
            rw [hrest] at hc
            rcases List.mem_cons.1 hc with rfl | hc
            · rfl
            · split at h
              · cases h
              · obtain ⟨e, he, -⟩ := Option.map_eq_some_iff.1 h
                rw [← List.takeWhile_append_dropWhile (p := Char.isDigit) (l := rest)] at hc
                rcases List.mem_append.1 hc with hc | hc
                · exact isNumeral_of_mem_takeWhile hc
                · exact isNumeral_of_exponentOf? he c hc
          · obtain ⟨e, he, -⟩ := Option.map_eq_some_iff.1 h
            exact isNumeral_of_exponentOf? he c hc
      have hhead : ∃ c rest, body = c :: rest ∧ c.isDigit = true := by
        cases body with
        | nil => cases hwhole
        | cons c rest =>
          refine ⟨c, rest, rfl, Classical.byContradiction fun hc => ?_⟩
          rw [List.takeWhile_cons, if_neg hc] at hwhole
          cases hwhole
      obtain ⟨c, rest, rfl, hdigit⟩ := hhead
      split at hsign
      · obtain ⟨-, rfl⟩ := hsign
        refine ⟨fun d hd => ?_, '-', _, rfl, .inr rfl⟩
        rcases List.mem_cons.1 hd with rfl | hd
        · rfl
        · exact hbody d hd
      · obtain ⟨-, rfl⟩ := hsign
        exact ⟨hbody, c, rest, rfl, .inl hdigit⟩
    · cases h

theorem isNumeral_of_read? {cs : List Char} {x : Number} (h : read? cs = some x) :
    (∀ c ∈ cs, isNumeral c = true) ∧ ∃ c rest, cs = c :: rest ∧ (c.isDigit = true ∨ c = '-') := by
  obtain ⟨p, hp, -⟩ := Option.bind_eq_some_iff.1 h
  exact isNumeral_of_parts? hp

end ColumnMetadata.Number
