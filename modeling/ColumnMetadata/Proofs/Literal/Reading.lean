import ColumnMetadata.Proofs.Literal.Braces
import ColumnMetadata.Proofs.Literal.Printed
import ColumnMetadata.Proofs.Value.Numbers

/-!
# Reading printed values back

The tokens of a printed value are a value of the grammar when it fits into the nesting that is left:
the value itself, with each number the one that its text is read as (`isValue_lexemes`). So a
printed object is read as such a value and up to its closing brace (`scan_value_pretty`), and the
search for that brace ends in the same place (`closing_pretty`). With integers only, what is read is
the printed object itself, whatever stands around it (`parseAt_pretty`).
-/

namespace ColumnMetadata

namespace Literal

/-! ## The tokens of a value -/

mutual

/-- A value with its numbers read anew is derived from the tokens of the value. -/
theorem isValue_lexemes : ∀ (v : Value) {room : Nat}, v.Fits room →
    IsValue room v.lexemes (v.mapNumbers .reread)
  | .null, _, _ => .null
  | .bool true, _, _ => .true
  | .bool false, _, _ => .false
  | .number x, _, _ => .number _ x.reread
  | .string s, _, _ => .string s
  | .array [], _, hfits => by
    obtain ⟨room, rfl, -⟩ := hfits.exists_items
    exact .emptyArray
  | .array (v :: vs), _, hfits => by
    obtain ⟨room, rfl, hvs⟩ := hfits.exists_items
    obtain ⟨hv, hvs⟩ := List.forall_mem_cons.1 hvs
    have h := IsValue.array (areItems_lexemes vs v (isValue_lexemes v hv) hvs) .nothing
    rwa [List.append_nil] at h
  | .object [], _, hfits => by
    obtain ⟨room, rfl, -⟩ := hfits.exists_fields
    exact .emptyObject
  | .object ((k, v) :: fs), _, hfits => by
    obtain ⟨room, rfl, hkeys, hfs⟩ := hfits.exists_fields
    obtain ⟨hv, hfs⟩ := List.forall_mem_cons.1 hfs
    have hmembers := areMembers_lexemes fs k v (isValue_lexemes v hv) hfs
    have hkeys' : Entries.Distinct (Value.mapFields .reread ((k, v) :: fs)) := by
      rw [Value.mapFields_eq, Entries.Distinct, Entries.keys_mapValues]
      exact hkeys
    have hcollects := Entries.collects_iff.2 (Entries.ofPairs_eq_self hkeys').symm
    have h := IsValue.object hmembers .nothing hcollects
    rwa [List.append_nil] at h

theorem areItems_lexemes : ∀ (vs : List Value) (v : Value) {room : Nat},
    IsValue room v.lexemes (v.mapNumbers .reread) → (∀ w ∈ vs, w.Fits room) →
    AreItems room (v.lexemes ++ Value.itemLexemes vs) (Value.mapItems .reread (v :: vs))
  | [], _, _, hv, _ => by
    rw [Value.itemLexemes, List.append_nil]
    exact .one hv
  | w :: vs, _, _, hv, hvs => by
    obtain ⟨hw, hvs⟩ := List.forall_mem_cons.1 hvs
    exact .more hv (areItems_lexemes vs w (isValue_lexemes w hw) hvs)

theorem areMembers_lexemes : ∀ (fs : List (String × Value)) (k : String) (v : Value) {room : Nat},
    IsValue room v.lexemes (v.mapNumbers .reread) → (∀ p ∈ fs, p.2.Fits room) →
    AreMembers room (.string k :: .colon :: (v.lexemes ++ Value.fieldLexemes fs))
      (Value.mapFields .reread ((k, v) :: fs))
  | [], k, _, _, hv, _ => by
    rw [Value.fieldLexemes, List.append_nil]
    exact .one (.string k) hv
  | (k', w) :: fs, k, _, _, hv, hfs => by
    obtain ⟨hw, hfs⟩ := List.forall_mem_cons.1 hfs
    exact .more (.string k) hv (areMembers_lexemes fs k' w (isValue_lexemes w hw) hfs)

end

theorem object_lexemes (fs : List (String × Value)) :
    ∃ ls, (Value.object fs).lexemes = .openBrace :: ls := by
  cases fs with
  | nil => exact ⟨_, rfl⟩
  | cons f fs => exact ⟨_, rfl⟩

/-! ## A printed object in a text -/

section PrintedObject

variable {fs : List (String × Value)} (hfits : (Value.object fs).Fits maxDepth)
  (hnumbers : ∀ x ∈ (Value.object fs).numbers, x.Legible) (pos : Nat) (rest : List Char)

include hfits hnumbers in
/-- A printed object is read with its numbers anew, up to its closing brace. -/
theorem scan_value_pretty :
    ∃ ts, (scan ⟨pos, (Value.object fs).pretty 0 ++ rest⟩).value pos =
      .ok ((Value.object fs).mapNumbers .reread,
        ⟨pos + Text.bytes ((Value.object fs).pretty 0), ts⟩) := by
  obtain ⟨ts, t, hts, hstop, hscan⟩ := scan_prettyObject hnumbers 0 pos rest
  refine ⟨(scan ⟨t.stop, rest⟩).tokens, ?_⟩
  rw [hscan, ← hstop, ← lastStop_concat pos ts t]
  exact (isValue_lexemes _ hfits).reads _ (Nat.zero_add _) _ pos (ts ++ [t]) _ hts
    (by simp only [Scan.prepend_tokens, List.length_append]; omega)

include hfits hnumbers in
/-- The search for the closing brace of a printed object ends behind the object. -/
theorem closing_pretty (opened : Nat) :
    Block.closing (scan ⟨pos, (Value.object fs).pretty 0 ++ rest⟩).ending opened 0
        (scan ⟨pos, (Value.object fs).pretty 0 ++ rest⟩).tokens =
      .ok (pos + Text.bytes ((Value.object fs).pretty 0)) := by
  obtain ⟨ts, t, hts, hstop, hscan⟩ := scan_prettyObject hnumbers 0 pos rest
  have hderived := isValue_lexemes _ hfits
  obtain ⟨ls, hls⟩ := object_lexemes fs
  rw [hls] at hts hderived
  rw [hscan, ← hstop, ← lastStop_concat pos ts t]
  exact closing_of_isValue _ opened pos hderived hts _

end PrintedObject

/-- An object of integers that is printed into a text is read back as itself wherever it stands, up
to its closing brace, and the search for that brace ends there as well. -/
theorem parseAt_pretty {fs : Entries Value} (hfits : (Value.object fs).Fits maxDepth)
    (hnumbers : (Value.object fs).IntegersOnly) (before behind : List Char) :
    let text := before ++ (Value.object fs).pretty 0 ++ behind
    let start := Text.bytes before
    let stop := start + Text.bytes ((Value.object fs).pretty 0)
    parseAt text start = .ok (.object fs, stop) ∧
      Block.closing (scanAt text start).ending start 0 (scanAt text start).tokens = .ok stop := by
  intro text start stop
  have hlegible : ∀ x ∈ (Value.object fs).numbers, x.Legible :=
    fun x hx => (hnumbers x hx).rereads.legible
  have hsame : (Value.object fs).mapNumbers .reread = .object fs :=
    Value.mapNumbers_eq_self fun x hx => (hnumbers x hx).rereads.reread_eq
  have hscan : scanAt text start = scan ⟨start, (Value.object fs).pretty 0 ++ behind⟩ := by
    simp only [text, start]
    rw [scanAt, Cursor.at, List.append_assoc, Text.dropBytes_append]
  constructor
  · obtain ⟨ts, hts⟩ := scan_value_pretty hfits hlegible start behind
    rw [parseAt, hscan, hts, hsame]
    rfl
  · rw [hscan]
    exact closing_pretty hfits hlegible start behind start

/-- An object with two objects in a list, a string full of braces and quotes, and an odd key. -/
def samplePrinted : Entries Value :=
  [("a \"b\" \\\n",
      .array [.object [], .object [("é", .number (.integer (-9223372036854775808)))]]),
    ("1.5", .string "\x7b // \x7d /* ' \" \t\u0007"), ("", .bool true)]

theorem parseAt_pretty_sample :
    let text := "/* \x7b */ config ".toList ++ (Value.object samplePrinted).pretty 0 ++
      "\x7d '".toList
    (Value.object samplePrinted).Fits maxDepth ∧ (Value.object samplePrinted).IntegersOnly ∧
    parseAt text 15 = .ok (.object samplePrinted, 143) ∧
      Block.closing (scanAt text 15).ending 15 0 (scanAt text 15).tokens = .ok 143 := by
  have hinner : (Value.object [("é", .number (.integer (-9223372036854775808)))]).Fits 126 :=
    .object (by decide) (List.forall_mem_singleton.2 (.number _))
  have hlist : (Value.array [.object [],
      .object [("é", .number (.integer (-9223372036854775808)))]]).Fits 127 :=
    .array (List.forall_mem_cons.2 ⟨.object (by decide) nofun, List.forall_mem_singleton.2 hinner⟩)
  have hfits : (Value.object samplePrinted).Fits maxDepth := by
    refine .object (by decide +kernel) (List.forall_mem_cons.2 ⟨hlist, ?_⟩)
    exact List.forall_mem_cons.2 ⟨.string _, List.forall_mem_singleton.2 (.bool true)⟩
  have hnumbers : (Value.object samplePrinted).IntegersOnly := by decide +kernel
  have hstart : Text.bytes "/* \x7b */ config ".toList = 15 := by decide +kernel
  have hstop : Text.bytes ((Value.object samplePrinted).pretty 0) = 128 := by decide +kernel
  have h := parseAt_pretty hfits hnumbers "/* \x7b */ config ".toList "\x7d '".toList
  simp only [hstart, hstop] at h
  exact ⟨hfits, hnumbers, h⟩

end Literal

end ColumnMetadata
