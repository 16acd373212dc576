import ColumnMetadata.Proofs.Literal.Reading
import ColumnMetadata.Proofs.Number.Legible

/-!
# The numbers of a literal

Each number of a value that was read is that of a token, and so its text is read
(`numbers_of_parseAt`). Conversely the tokens of a printed value show the texts of its numbers, so
two values of one shape that are printed alike have numbers with the same texts
(`text_eq_of_pretty_eq`).
-/

namespace ColumnMetadata.Literal

/-! ## Tokens of numbers -/

/-- The number of a number token is that of its text. -/
theorem read?_of_tokenAt {pos : Nat} {c : Char} {cs : List Char} {t : Token} {q : Cursor}
    (h : tokenAt pos c cs = .ok (t, q)) {s : String} {x : Number} (ht : t.lexeme = .number s x) :
    ∃ run, Number.read? run = some x := by
  unfold tokenAt at h
  split at h
  · next l hl =>
    cases h
    unfold punctuation? at hl
    split at hl <;> cases hl <;> cases ht
  · split at h
    · obtain ⟨b, -, he⟩ := map_eq_ok.1 h
      cases he
      cases ht
    · split at h
      · dsimp only at h
        split at h
        · next l hl =>
          cases h
          unfold bareLexeme? at hl
          split at hl
          · next y hy =>
            cases hl
            cases ht
            exact ⟨_, hy⟩
          · split at hl
            · cases hl
              cases ht
            · cases hl
        · cases h
      · cases h
        cases ht

/-- The numbers of all tokens of a scan are read. -/
theorem read?_of_mem_scan (p : Cursor) {t : Token} (ht : t ∈ (scan p).tokens) {s : String}
    {x : Number} (hx : t.lexeme = .number s x) : ∃ run, Number.read? run = some x := by
  rw [scan_eq] at ht
  split at ht
  · cases ht
  · cases ht
  · next t' q hnext =>
    rcases List.mem_cons.1 ht with rfl | ht
    · obtain ⟨s, -, hnext⟩ := bind_eq_ok.1 hnext
      split at hnext
      · cases hnext
      · obtain ⟨_, htoken, he⟩ := map_eq_ok.1 hnext
        cases he
        exact read?_of_tokenAt htoken hx
    · have hshorter := next?_shorter hnext
      exact read?_of_mem_scan q ht hx
termination_by p.rest.length

/-! ## Numbers of derived values -/

mutual

/-- The numbers of a derived value are those of tokens. -/
theorem IsValue.exists_token : ∀ {room : Nat} {ls : List Lexeme} {v : Value}, IsValue room ls v →
    ∀ x ∈ v.numbers, ∃ s, .number s x ∈ ls
  | _, _, _, .string _, _, h | _, _, _, .true, _, h | _, _, _, .false, _, h
  | _, _, _, .null, _, h | _, _, _, .emptyObject, _, h | _, _, _, .emptyArray, _, h => nomatch h
  | _, _, _, .number t y, x, h => by
    cases List.mem_singleton.1 h
    exact ⟨t, List.mem_cons_self⟩
  | _, _, _, .object hmembers _ hfields, x, h => by
    obtain ⟨p, hp, hx⟩ := Value.mem_fieldNumbers.1 h
    rw [Entries.collects_iff.1 hfields] at hp
    rcases Entries.mem_insertAll hp with hp | hp
    · cases hp
    · obtain ⟨s, hs⟩ := hmembers.exists_token p hp x hx
      exact ⟨s, List.mem_cons_of_mem _ (List.mem_append_left _ (List.mem_append_left _ hs))⟩
  | _, _, _, .array hitems _, x, h => by
    obtain ⟨v, hv, hx⟩ := Value.mem_itemNumbers.1 h
    obtain ⟨s, hs⟩ := hitems.exists_token v hv x hx
    exact ⟨s, List.mem_cons_of_mem _ (List.mem_append_left _ (List.mem_append_left _ hs))⟩

theorem AreMembers.exists_token : ∀ {room : Nat} {ls : List Lexeme}
    {members : List (String × Value)}, AreMembers room ls members →
    ∀ p ∈ members, ∀ x ∈ p.2.numbers, ∃ s, .number s x ∈ ls
  | _, _, _, .one _ hv => List.forall_mem_singleton.2 fun x hx => by
    obtain ⟨s, hs⟩ := hv.exists_token x hx
    exact ⟨s, List.mem_cons_of_mem _ (List.mem_cons_of_mem _ hs)⟩
  | _, _, _, .more _ hv h => by
    refine List.forall_mem_cons.2 ⟨fun x hx => ?_, fun p hp x hx => ?_⟩
    · obtain ⟨s, hs⟩ := hv.exists_token x hx
      exact ⟨s, List.mem_cons_of_mem _ (List.mem_cons_of_mem _ (List.mem_append_left _ hs))⟩
    · obtain ⟨s, hs⟩ := h.exists_token p hp x hx
      exact ⟨s, List.mem_cons_of_mem _ (List.mem_cons_of_mem _
        (List.mem_append_right _ (List.mem_cons_of_mem _ hs)))⟩

theorem AreItems.exists_token : ∀ {room : Nat} {ls : List Lexeme} {items : List Value},
    AreItems room ls items → ∀ v ∈ items, ∀ x ∈ v.numbers, ∃ s, .number s x ∈ ls
  | _, _, _, .one hv => List.forall_mem_singleton.2 hv.exists_token
  | _, _, _, .more hv h => by
    refine List.forall_mem_cons.2 ⟨fun x hx => ?_, fun v hv' x hx => ?_⟩
    · obtain ⟨s, hs⟩ := hv.exists_token x hx
      exact ⟨s, List.mem_append_left _ hs⟩
    · obtain ⟨s, hs⟩ := h.exists_token v hv' x hx
      exact ⟨s, List.mem_append_right _ (List.mem_cons_of_mem _ hs)⟩

end

/-- Every number of a value that was read has a text that is read. -/
theorem numbers_of_parseAt {text : List Char} {start stop : Nat} {v : Value}
    (h : parseAt text start = .ok (v, stop)) : ∀ x ∈ v.numbers, x.Legible := by
  obtain ⟨⟨v', u⟩, hv, he⟩ := map_eq_ok.1 h
  cases he
  obtain ⟨ts, htokens, -, hderived⟩ := value_sound _ _ (Nat.zero_add _) hv
  intro x hx
  obtain ⟨s, hs⟩ := hderived.exists_token x hx
  obtain ⟨t, ht, hlexeme⟩ := List.mem_map.1 hs
  have hscan : t ∈ (scanAt text start).tokens := by
    have hleft := List.mem_append_left u.tokens ht
    rwa [← htokens] at hleft
  obtain ⟨run, hrun⟩ := read?_of_mem_scan _ hscan hlexeme
  exact Number.legible_of_read? hrun

/-! ## The texts of the numbers -/

/-- The text of a number token. -/
def Lexeme.numberText : Lexeme → Option String
  | .number s _ => some s
  | _ => none

mutual

/-- The number tokens of a value show the texts of its numbers. -/
theorem numberText_lexemes : ∀ v : Value,
    v.lexemes.filterMap Lexeme.numberText = v.numbers.map fun x => String.ofList x.text
  | .null | .bool _ | .string _ | .number _ | .array [] | .object [] => rfl
  | .array (v :: vs) => by
    simp [Value.lexemes, Value.numbers, Value.itemNumbers, List.filterMap_cons, Lexeme.numberText,
      numberText_lexemes v, numberText_itemLexemes vs]
  | .object ((k, v) :: fs) => by
    simp [Value.lexemes, Value.numbers, Value.fieldNumbers, List.filterMap_cons, Lexeme.numberText,
      numberText_lexemes v, numberText_fieldLexemes fs]

theorem numberText_itemLexemes : ∀ vs : List Value,
    (Value.itemLexemes vs).filterMap Lexeme.numberText =
      (Value.itemNumbers vs).map fun x => String.ofList x.text
  | [] => rfl
  | v :: vs => by
    simp [Value.itemLexemes, Value.itemNumbers, List.filterMap_cons, Lexeme.numberText,
      numberText_lexemes v, numberText_itemLexemes vs]

theorem numberText_fieldLexemes : ∀ fs : List (String × Value),
    (Value.fieldLexemes fs).filterMap Lexeme.numberText =
      (Value.fieldNumbers fs).map fun x => String.ofList x.text
  | [] => rfl
  | (k, v) :: fs => by
    simp [Value.fieldLexemes, Value.fieldNumbers, List.filterMap_cons, Lexeme.numberText,
      numberText_lexemes v, numberText_fieldLexemes fs]

end

/-- Objects that are printed alike have the same tokens. -/
theorem lexemes_eq_of_pretty_eq {fs gs : List (String × Value)}
    (hfs : ∀ x ∈ (Value.object fs).numbers, x.Legible)
    (hgs : ∀ x ∈ (Value.object gs).numbers, x.Legible)
    (h : (Value.object fs).pretty 0 = (Value.object gs).pretty 0) :
    (Value.object fs).lexemes = (Value.object gs).lexemes := by
  obtain ⟨ts, t, hts, hstop, hscan⟩ := scan_prettyObject hfs 0 0 []
  obtain ⟨us, u, hus, hstop', hscan'⟩ := scan_prettyObject hgs 0 0 []
  rw [h, hscan', hstop', ← h, ← hstop] at hscan
  have htokens := congrArg Scan.tokens hscan
  rw [Scan.prepend_tokens, Scan.prepend_tokens, List.append_cancel_right_eq] at htokens
  rw [← hts, ← hus, htokens]

/-- When other numbers in the places of its own do not show in the pretty form of an object, each
has the text of the one that it replaces. -/
theorem text_eq_of_pretty_eq {f : Number → Number} {fs : List (String × Value)}
    (hfs : ∀ x ∈ (Value.object fs).numbers, x.Legible ∧ (f x).Legible)
    (h : ((Value.object fs).mapNumbers f).pretty 0 = (Value.object fs).pretty 0) :
    ∀ x ∈ (Value.object fs).numbers, (f x).text = x.text := by
  have hnumbers := Value.numbers_mapNumbers f (.object fs)
  have hmapped : ∀ x ∈ ((Value.object fs).mapNumbers f).numbers, x.Legible := by
    rw [hnumbers]
    exact List.forall_mem_map.2 fun x hx => (hfs x hx).2
  have htokens := lexemes_eq_of_pretty_eq hmapped (fun x hx => (hfs x hx).1) h
  have htexts := numberText_lexemes ((Value.object fs).mapNumbers f)
  rw [hnumbers, List.map_map] at htexts
  have hsame : ((Value.object fs).numbers.map ((fun x => String.ofList x.text) ∘ f)) =
      (Value.object fs).numbers.map fun x => String.ofList x.text := by
    rw [← htexts, ← numberText_lexemes]
    exact congrArg _ htokens
  intro x hx
  exact String.ofList_injective (List.map_inj_left.1 hsame x hx)

end ColumnMetadata.Literal
