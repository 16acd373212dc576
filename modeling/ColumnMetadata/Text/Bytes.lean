/-!
# Byte offsets in a text

Places in a text are counted in bytes of its UTF-8 form. A text is a list of characters; `bytes` is
its length in bytes, and `dropBytes` and `takeBytes` cut it at a byte offset. Cutting a text
`a ++ b` at `bytes a` gives back `a` and `b` (`takeBytes_append`, `dropBytes_append`).
-/

namespace ColumnMetadata.Text

def bytes : List Char → Nat
  | [] => 0
  | c :: cs => c.utf8Size + bytes cs

@[simp] theorem bytes_nil : bytes [] = 0 := rfl

@[simp] theorem bytes_cons (c : Char) (cs : List Char) :
    bytes (c :: cs) = c.utf8Size + bytes cs := rfl

@[simp] theorem bytes_append (a b : List Char) : bytes (a ++ b) = bytes a + bytes b := by
  induction a with
  | nil => simp
  | cons c cs ih => simp [ih, Nat.add_assoc]

/-- Only the empty text has no bytes. -/
theorem bytes_eq_zero {cs : List Char} : bytes cs = 0 ↔ cs = [] := by
  cases cs with
  | nil => simp
  | cons c cs =>
    have := c.utf8Size_pos
    simp
    omega

/-- What stands at and after a byte offset. -/
def dropBytes : Nat → List Char → List Char
  | _, [] => []
  | n, c :: cs => if n = 0 then c :: cs else dropBytes (n - c.utf8Size) cs

/-- What stands before a byte offset. -/
def takeBytes : Nat → List Char → List Char
  | _, [] => []
  | n, c :: cs => if n = 0 then [] else c :: takeBytes (n - c.utf8Size) cs

@[simp] theorem dropBytes_zero (cs : List Char) : dropBytes 0 cs = cs := by
  cases cs <;> simp [dropBytes]

@[simp] theorem takeBytes_zero (cs : List Char) : takeBytes 0 cs = [] := by
  cases cs <;> simp [takeBytes]

/-- Cutting behind a part leaves what follows the part. -/
@[simp] theorem dropBytes_append (a b : List Char) : dropBytes (bytes a) (a ++ b) = b := by
  induction a with
  | nil => simp
  | cons c cs ih =>
    have := c.utf8Size_pos
    have hne : c.utf8Size + bytes cs ≠ 0 := by omega
    rw [bytes_cons, List.cons_append, dropBytes, if_neg hne, Nat.add_sub_cancel_left, ih]

/-- Cutting behind a part keeps the part. -/
@[simp] theorem takeBytes_append (a b : List Char) : takeBytes (bytes a) (a ++ b) = a := by
  induction a with
  | nil => simp
  | cons c cs ih =>
    have := c.utf8Size_pos
    have hne : c.utf8Size + bytes cs ≠ 0 := by omega
    rw [bytes_cons, List.cons_append, takeBytes, if_neg hne, Nat.add_sub_cancel_left, ih]

/-- The two parts of a cut make up the text. -/
theorem takeBytes_append_dropBytes (n : Nat) (cs : List Char) :
    takeBytes n cs ++ dropBytes n cs = cs := by
  induction cs generalizing n with
  | nil => rfl
  | cons c cs ih =>
    by_cases hn : n = 0
    · simp [hn]
    · simp [takeBytes, dropBytes, hn, ih]

end ColumnMetadata.Text
