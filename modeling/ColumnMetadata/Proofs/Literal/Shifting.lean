import ColumnMetadata.Proofs.Literal.Scanning

/-!
# Scanning a text at another offset

A scan uses byte offsets to say where things are and for nothing else: when the text stands further
back in a file, the tokens and the error are the same, further back by as much (`scan_shift`).
-/

namespace ColumnMetadata.Literal

/-! ## Places further back -/

def Cursor.shift (k : Nat) (p : Cursor) : Cursor := ⟨k + p.pos, p.rest⟩

def Token.shift (k : Nat) (t : Token) : Token := ⟨t.lexeme, k + t.start, k + t.stop⟩

def SyntaxError.shift (k : Nat) (e : SyntaxError) : SyntaxError := ⟨k + e.offset, e.cause⟩

def StringBody.shift (k : Nat) (b : StringBody) : StringBody := ⟨b.chars, b.behind.shift k⟩

/-- A result whose places are further back, when `f` moves those of a success. -/
def shiftResult {α : Type} (k : Nat) (f : α → α) (x : Except SyntaxError α) :
    Except SyntaxError α :=
  (x.mapError (SyntaxError.shift k)).map f

variable {α β : Type} (k : Nat)

@[simp] theorem shiftResult_ok (f : α → α) (a : α) : shiftResult k f (.ok a) = .ok (f a) := rfl

@[simp] theorem shiftResult_error (f : α → α) (e : SyntaxError) :
    shiftResult k f (.error e) = .error (e.shift k) := rfl

/-- What is made of a moved result is moved, if it is so for values. -/
theorem map_shiftResult {f : α → α} {g g' : α → β} {f' : β → β} (h : ∀ a, g' (f a) = f' (g a))
    (x : Except SyntaxError α) : (shiftResult k f x).map g' = shiftResult k f' (x.map g) := by
  cases x with
  | error e => rfl
  | ok a => exact congrArg Except.ok (h a)

/-! ## Blanks, comments and strings -/

mutual

theorem skip_shift : ∀ (pos : Nat) (cs : List Char),
    skip (k + pos) cs = shiftResult k (Cursor.shift k) (skip pos cs)
  | pos, [] => by
    unfold skip
    rfl
  | pos, c :: cs => by
    unfold skip
    split
    · rfl
    · next cs' hcs =>
      cases hcs
      exact skipLine_shift (pos + 2) cs'
    · next cs' hcs =>
      cases hcs
      exact skipBlock_shift pos (pos + 2) cs'
    · next hcs =>
      cases hcs
      split
      · exact Nat.add_assoc k pos c.utf8Size ▸ skip_shift (pos + c.utf8Size) cs
      · rfl

theorem skipLine_shift : ∀ (pos : Nat) (cs : List Char),
    skipLine (k + pos) cs = shiftResult k (Cursor.shift k) (skipLine pos cs)
  | pos, [] => by
    unfold skipLine
    rfl
  | pos, c :: cs => by
    unfold skipLine
    split
    · exact skip_shift (pos + 1) cs
    · exact Nat.add_assoc k pos c.utf8Size ▸ skipLine_shift (pos + c.utf8Size) cs

theorem skipBlock_shift : ∀ (start pos : Nat) (cs : List Char),
    skipBlock (k + start) (k + pos) cs = shiftResult k (Cursor.shift k) (skipBlock start pos cs)
  | start, pos, [] => by
    unfold skipBlock
    rfl
  | start, pos, c :: cs => by
    unfold skipBlock
    split
    · rfl
    · next cs' hcs =>
      cases hcs
      exact skip_shift (pos + 2) cs'
    · next hcs =>
      cases hcs
      exact Nat.add_assoc k pos c.utf8Size ▸ skipBlock_shift start (pos + c.utf8Size) cs

end

theorem cons_shift (c : Char) (b : StringBody) : (b.shift k).cons c = (b.cons c).shift k := rfl

theorem stringBody_shift (quote : Char) (start pos : Nat) (cs : List Char) :
    stringBody quote (k + start) (k + pos) cs =
      shiftResult k (StringBody.shift k) (stringBody quote start pos cs) := by
  fun_induction stringBody quote start pos cs
  -- Both sides take the same branch, and each branch moves the place by a constant.
  all_goals
    rw [stringBody.eq_def quote (k + start)]
    simp_all [SyntaxError.shift, StringBody.shift, Cursor.shift, Nat.add_assoc,
      map_shiftResult k (cons_shift k _)]

/-! ## Tokens -/

theorem tokenAt_shift (pos : Nat) (c : Char) (cs : List Char) :
    tokenAt (k + pos) c cs =
      shiftResult k (Prod.map (Token.shift k) (Cursor.shift k)) (tokenAt pos c cs) := by
  unfold tokenAt
  rw [Nat.add_assoc]
  split
  · rfl
  · split
    · rw [stringBody_shift]
      exact map_shiftResult k (by exact fun _ => rfl) _
    · split
      · dsimp only
        rw [Nat.add_assoc]
        split
        · rfl
        · rfl
      · rfl

/-- What the next token is, further back. -/
def shiftNext (k : Nat) (x : Nat × Option (Token × Cursor)) : Nat × Option (Token × Cursor) :=
  (k + x.1, x.2.map (Prod.map (Token.shift k) (Cursor.shift k)))

theorem next?_shift (p : Cursor) :
    next? (p.shift k) = shiftResult k (shiftNext k) (next? p) := by
  unfold next?
  rw [Cursor.shift, skip_shift]
  rcases skip p.pos p.rest with e | ⟨pos, _ | ⟨c, cs⟩⟩
  · rfl
  · rfl
  · change (tokenAt (k + pos) c cs).map _ = _
    rw [tokenAt_shift]
    exact map_shiftResult k (by exact fun _ => rfl) _

/-! ## The whole scan -/

def Scan.shift (k : Nat) (s : Scan) : Scan :=
  ⟨s.tokens.map (Token.shift k), shiftResult k (k + ·) s.ending⟩

theorem scan_shift (p : Cursor) : scan (p.shift k) = (scan p).shift k := by
  rw [scan_eq, scan_eq p, next?_shift]
  rcases hnext : next? p with e | ⟨stop, _ | ⟨t, q⟩⟩
  · rfl
  · rfl
  · have hshorter := next?_shorter hnext
    change (scan (q.shift k)).cons (t.shift k) = ((scan q).cons t).shift k
    rw [scan_shift q]
    rfl
termination_by p.rest.length

end ColumnMetadata.Literal
