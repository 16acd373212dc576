import ColumnMetadata.Number.Reader
import ColumnMetadata.Proofs.Basic

/-!
# The parts of a number's text

Parts that consist of digits, with an integer part that has no leading zero, are read back from the
text that they make up (`parts?_text`).
-/

namespace ColumnMetadata.Number

namespace Parts

/-- The text of the fraction digits. -/
def fractionText : Option (List Char) → List Char
  | none => []
  | some digits => '.' :: digits

/-- The text of the exponent, always with a sign. -/
def exponentText : Option (Bool × List Char) → List Char
  | none => []
  | some (negative, digits) => 'e' :: (if negative then '-' else '+') :: digits

/-- The text behind the sign of a number. -/
def unsignedText (p : Parts) : List Char :=
  p.whole ++ (fractionText p.fraction ++ exponentText p.exponent)

def text (p : Parts) : List Char :=
  if p.negative then '-' :: p.unsignedText else p.unsignedText

/-- Parts that a number's text can have. -/
structure WellFormed (p : Parts) : Prop where
  isWhole : isWhole p.whole = true
  whole : ∀ c ∈ p.whole, c.isDigit = true
  fraction : ∀ ds ∈ p.fraction, ds ≠ [] ∧ ∀ c ∈ ds, c.isDigit = true
  exponent : ∀ e ∈ p.exponent, e.2 ≠ [] ∧ ∀ c ∈ e.2, c.isDigit = true

end Parts

open Parts

theorem exponentOf?_exponentText {e : Option (Bool × List Char)}
    (h : ∀ p ∈ e, p.2 ≠ [] ∧ ∀ c ∈ p.2, c.isDigit = true) :
    exponentOf? (exponentText e) = some e := by
  cases e with
  | none => rfl
  | some p =>
    obtain ⟨negative, digits⟩ := p
    obtain ⟨hne, hdigits⟩ := h _ rfl
    have hall : (!digits.isEmpty && digits.all Char.isDigit) = true := by
      rw [Bool.and_eq_true, List.all_eq_true, Bool.not_eq_true', List.isEmpty_eq_false_iff]
      exact ⟨hne, hdigits⟩
    cases negative <;> simp [exponentText, exponentOf?, hall]

theorem exponentText_head (e : Option (Bool × List Char)) :
    ∀ c ∈ (exponentText e).head?, c.isDigit = false := by
  cases e with
  | none => exact nofun
  | some p =>
    rintro c ⟨⟩
    rfl

/-- Behind the integer digits stands no further digit. -/
theorem fractionText_head (f : Option (List Char)) (e : Option (Bool × List Char)) :
    ∀ c ∈ (fractionText f ++ exponentText e).head?, c.isDigit = false := by
  cases f with
  | none => exact exponentText_head e
  | some ds =>
    rintro c ⟨⟩
    rfl

/-- A text behind the sign has no further sign. -/
theorem unsignedText_ne_minus_cons {p : Parts} (h : p.WellFormed) (cs : List Char) :
    p.unsignedText ≠ '-' :: cs := by
  intro he
  unfold unsignedText at he
  cases hwhole : p.whole with
  | nil =>
    have hempty := h.isWhole
    rw [hwhole] at hempty
    cases hempty
  | cons c whole =>
    have hc := h.whole c (hwhole ▸ List.mem_cons_self)
    rw [hwhole, List.cons_append, List.cons.injEq] at he
    rw [he.1] at hc
    cases hc

/-- The sign is split off the text. -/
theorem sign_text {p : Parts} (h : p.WellFormed) {negative : Bool} {body : List Char}
    (hsign : (match p.text with
      | '-' :: cs => (true, cs)
      | cs => (false, cs)) = (negative, body)) :
    negative = p.negative ∧ body = p.unsignedText := by
  unfold Parts.text at hsign
  split at hsign
  · next rest hrest =>
    obtain ⟨rfl, rfl⟩ := hsign
    split at hrest
    · next hnegative => exact ⟨hnegative.symm, (List.cons.inj hrest).2.symm⟩
    · exact absurd hrest (unsignedText_ne_minus_cons h _)
  · next hno =>
    obtain ⟨rfl, rfl⟩ := hsign
    split at hno
    · exact absurd rfl (hno _)
    · next hnegative => exact ⟨(Bool.eq_false_iff.2 hnegative).symm, if_neg hnegative⟩

/-- Parts are read back from the text that they make up. -/
theorem parts?_text {p : Parts} (h : p.WellFormed) : parts? p.text = some p := by
  have hhead := fractionText_head p.fraction p.exponent
  have htake : p.unsignedText.takeWhile Char.isDigit = p.whole :=
    takeWhile_append_of_head h.whole hhead
  have hdrop : p.unsignedText.dropWhile Char.isDigit =
      fractionText p.fraction ++ exponentText p.exponent :=
    dropWhile_append_of_head h.whole hhead
  have hexponent := exponentOf?_exponentText h.exponent
  unfold parts?
  split
  next negative body hsign =>
    obtain ⟨rfl, rfl⟩ := sign_text h hsign
    dsimp only
    rw [htake, hdrop, if_pos h.isWhole]
    obtain ⟨negative, whole, fraction, exponent⟩ := p
    cases fraction with
    | none =>
      cases exponent with
      | none => rfl
      | some e =>
        change (exponentOf? (exponentText (some e))).map _ = _
        rw [hexponent]
        rfl
    | some ds =>
      obtain ⟨hne, hdigits⟩ := h.fraction ds rfl
      have hstop := exponentText_head exponent
      simp only [fractionText, List.cons_append]
      rw [takeWhile_append_of_head hdigits hstop, dropWhile_append_of_head hdigits hstop,
        hexponent, if_neg (fun he => hne (List.isEmpty_iff.1 he))]
      rfl

end ColumnMetadata.Number
