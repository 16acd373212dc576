import Mathlib.Data.List.Lex
import Mathlib.Tactic.SplitIfs

/-!
# The order of texts and of their bytes

Texts are compared by their characters, a file system compares names by their bytes. In UTF-8 both
orders agree: of two characters the one that comes first has the bytes that come first, and the first
byte that differs decides (`utf8EncodeChar_append_lt`). So the bytes of texts are ordered as the texts
are (`utf8_lt`).
-/

namespace ColumnMetadata.Text

/-- The bytes of a text in UTF-8. -/
def utf8 (s : String) : List UInt8 := s.toList.flatMap String.utf8EncodeChar

/-- The digits of a character's number that are put into four bytes: the first that differs decides. -/
theorem digits_lt {m n : Nat} (h : m < n) :
    m / 262144 < n / 262144 ∨ m / 262144 = n / 262144 ∧
      (m / 4096 % 64 < n / 4096 % 64 ∨ m / 4096 % 64 = n / 4096 % 64 ∧
        (m / 64 % 64 < n / 64 % 64 ∨ m / 64 % 64 = n / 64 % 64 ∧ m % 64 < n % 64)) := by
  omega

/-- A character that comes first has the bytes that come first, whatever follows. -/
theorem utf8EncodeChar_append_lt {c d : Char} (h : c < d) (x y : List UInt8) :
    String.utf8EncodeChar c ++ x < String.utf8EncodeChar d ++ y := by
  have hcd : c.val.toNat < d.val.toNat := h
  have hd : d.val.toNat < 1114112 := by
    rcases d.valid with hvalid | hvalid
    · exact Nat.lt_trans hvalid (by decide)
    · exact hvalid.2
  unfold String.utf8EncodeChar
  generalize c.val.toNat = m at *
  generalize d.val.toNat = n at *
  dsimp only
  by_cases hm : m ≤ 65535
  · -- Either `d` takes more bytes, so that its first byte is larger, or both take three at most.
    split_ifs <;>
    simp only [List.cons_append, List.nil_append, List.cons_lt_cons_iff, UInt8.lt_iff_toNat_lt,
      ← UInt8.toNat_inj, UInt8.toNat_ofNat'] <;>
    omega
  · have hm' : ¬ m ≤ 127 ∧ ¬ m ≤ 2047 := by omega
    have hn : ¬ n ≤ 127 ∧ ¬ n ≤ 2047 ∧ ¬ n ≤ 65535 := by omega
    simp only [hm, hm', hn, if_false, List.cons_append, List.nil_append, List.cons_lt_cons_iff,
      UInt8.lt_iff_toNat_lt, ← UInt8.toNat_inj, UInt8.toNat_ofNat']
    rcases digits_lt hcd with hlt | ⟨hfirst, hlt | ⟨hsecond, hlt | ⟨hthird, hlt⟩⟩⟩ <;> omega

/-- Bytes are ordered as the texts are. -/
theorem utf8_lt {s t : String} (h : s < t) : utf8 s < utf8 t := by
  have hchars : s.toList < t.toList := String.lt_iff.1 h
  unfold utf8
  generalize s.toList = cs at hchars
  generalize t.toList = ds at hchars
  induction hchars with
  | @nil d ds =>
    rw [List.flatMap_nil, List.flatMap_cons]
    obtain ⟨b, bs, hbytes⟩ :=
      List.exists_cons_of_ne_nil (String.utf8EncodeChar_ne_nil (c := d))
    rw [hbytes, List.cons_append]
    exact List.nil_lt_cons _ _
  | rel h =>
    rw [List.flatMap_cons, List.flatMap_cons]
    exact utf8EncodeChar_append_lt h _ _
  | cons _ ih =>
    rw [List.flatMap_cons, List.flatMap_cons]
    exact List.append_left_lt ih

end ColumnMetadata.Text
