/-!
# UTF-8

Reading bytes as text. Bytes that are no UTF-8 are cut into ill-formed parts: each is the longest
run of bytes that begins a character without finishing it, or a single byte that begins none. A
strict reading fails on the first of them, a lossy one puts a replacement character in its place.
-/

namespace ColumnMetadata.Text

/-- What has been read of a character: how many bytes are missing, the bits so far, and the range in
which the next byte has to be. -/
structure Utf8Pending where
  missing : Nat
  bits : Nat
  low : Nat
  high : Nat

/-- What a byte at the start of a character begins: a whole character, a longer one, or none. -/
def utf8Lead (b : Nat) : Char ⊕ Option Utf8Pending :=
  if b < 0x80 then .inl (Char.ofNat b)
  else if 0xC2 ≤ b ∧ b ≤ 0xDF then .inr (some ⟨1, b - 0xC0, 0x80, 0xBF⟩)
  else if b = 0xE0 then .inr (some ⟨2, 0, 0xA0, 0xBF⟩)
  else if b = 0xED then .inr (some ⟨2, 0xD, 0x80, 0x9F⟩)
  else if 0xE1 ≤ b ∧ b ≤ 0xEF then .inr (some ⟨2, b - 0xE0, 0x80, 0xBF⟩)
  else if b = 0xF0 then .inr (some ⟨3, 0, 0x90, 0xBF⟩)
  else if b = 0xF4 then .inr (some ⟨3, 4, 0x80, 0x8F⟩)
  else if 0xF1 ≤ b ∧ b ≤ 0xF3 then .inr (some ⟨3, b - 0xF0, 0x80, 0xBF⟩)
  else .inr none

/-- The characters of bytes; `none` stands for an ill-formed part. -/
def decodeUtf8From : Option Utf8Pending → List UInt8 → List (Option Char)
  | none, [] => []
  | some _, [] => [none]
  | pending, b :: bs =>
    let n := b.toNat
    let fresh :=
      match utf8Lead n with
      | .inl c => some c :: decodeUtf8From none bs
      | .inr (some p) => decodeUtf8From (some p) bs
      | .inr none => none :: decodeUtf8From none bs
    match pending with
    | none => fresh
    | some p =>
      if p.low ≤ n ∧ n ≤ p.high then
        let bits := p.bits * 64 + (n - 0x80)
        if p.missing ≤ 1 then some (Char.ofNat bits) :: decodeUtf8From none bs
        else decodeUtf8From (some ⟨p.missing - 1, bits, 0x80, 0xBF⟩) bs
      else none :: fresh

/-- The text that bytes are, if they are one. -/
def ofUtf8? (bs : List UInt8) : Option String :=
  ((decodeUtf8From none bs).mapM id).map String.ofList

/-- The text that bytes are, with a replacement character for each ill-formed part. -/
def ofUtf8Lossy (bs : List UInt8) : String :=
  String.ofList ((decodeUtf8From none bs).map fun c => c.getD '\uFFFD')

end ColumnMetadata.Text
