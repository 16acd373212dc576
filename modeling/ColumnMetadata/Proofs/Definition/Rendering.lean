import ColumnMetadata.Proofs.Definition.Opaque
import ColumnMetadata.Proofs.Definition.WriteBack
import ColumnMetadata.Proofs.Literal.Numbers

/-!
# Rendering again

What a file is rendered as can always be read again, and reading it changes nothing but numbers:
each becomes the one that its text is read as. So the second rendering is the first one exactly when
no number shows that in its text (`Definition.render_again`). Integers of 64 bits never do. A number
with a fraction may, because the reader can miss the number that was written by a place.
-/

namespace ColumnMetadata

/-- Other contents in the same place make the same text exactly when they are printed alike. -/
theorem Block.replace_render_eq_iff (b : Block) {m m' : Metadata} :
    b.replace m'.render = b.replace m.render ↔ m'.toValue.pretty 0 = m.toValue.pretty 0 := by
  rw [replace, replace, List.append_cancel_right_eq, List.append_cancel_left_eq, Metadata.render,
    Metadata.render, List.append_cancel_left_eq]

namespace Definition

/-- The content of a block that was read fits into a block again, and its numbers have texts that
are read. -/
theorem wellFormedWith_of_parse {text : String} {d : Definition} {b : Block}
    (hparse : Definition.parse text = .ok d) (hblock : d.block = some b) :
    d.metadata.WellFormedWith Number.Legible := by
  obtain ⟨-, -, v, hv, hm⟩ := parse_block hparse hblock
  exact .of_ofValue hm ⟨Literal.fits_of_parseAt hv, Literal.numbers_of_parseAt hv⟩

/-- A rendered file is read as a file that says the same but for its numbers, each of which is the
one that its text is read as. It is rendered in the same way again exactly when the texts of these
numbers are the same. -/
theorem render_again {text : String} {d : Definition} {b : Block}
    (hparse : Definition.parse text = .ok d) (hblock : d.block = some b) :
    ∃ (written : String) (d' : Definition) (again : String),
      d.render? = some written ∧ Definition.parse written = .ok d' ∧ d'.render? = some again ∧
      d'.metadata.toValue = d.metadata.toValue.mapNumbers .reread ∧
      (again = written ↔ ∀ x ∈ d.metadata.toValue.numbers,
        ∃ y, Number.read? x.text = some y ∧ y.text = x.text) := by
  obtain ⟨-, hlocated, -⟩ := parse_block hparse hblock
  have hwell := wellFormedWith_of_parse hparse hblock
  have hwithin := Metadata.within_toValue hwell
  obtain ⟨m, hread, hagree⟩ := Metadata.exists_ofValue_toValue hwell
  have hreread : Metadata.ofValue (d.metadata.toValue.mapNumbers .reread) =
      .ok (m.mapNumbers .reread) := by
    rw [Metadata.ofValue_mapNumbers, hread]
    rfl
  have hvalue : (m.mapNumbers .reread).toValue = d.metadata.toValue.mapNumbers .reread := by
    rw [Metadata.toValue_mapNumbers, hagree.written]
  have hlegible : ∀ x ∈ d.metadata.toValue.numbers, x.Legible ∧ x.reread.Legible := fun x hx =>
    ⟨hwithin.numbers x hx, Number.legible_of_read? (hwithin.numbers x hx).read?_text⟩
  refine ⟨String.ofList (b.replace d.metadata.render), _,
    String.ofList (b.replace (m.mapNumbers .reread).render), by rw [render?, hblock]; rfl,
    parse_replace hlocated hwithin hreread, rfl, hvalue, ?_⟩
  rw [String.ofList_inj, Block.replace_render_eq_iff, hvalue]
  constructor
  · intro h x hx
    exact ⟨_, (hlegible x hx).1.read?_text, Literal.text_eq_of_pretty_eq hlegible h x hx⟩
  · intro h
    refine Value.pretty_mapNumbers 0 fun x hx => ?_
    obtain ⟨y, hy, htext⟩ := h x hx
    rw [Number.reread, hy, Option.getD_some, htext]

/-- A text with numbers in a field and in a column's own keys. -/
def sampleNumbers : String :=
  "config \x7ba: 9.548620927814542, columns: \x7bb: \x7bmeta: [1e3, -0, " ++
    "18446744073709551616]\x7d\x7d\x7d"

theorem render_again_sample :
    ∃ (d : Definition) (b : Block), Definition.parse sampleNumbers = .ok d ∧ d.block = some b ∧
      ∃ (written : String) (d' : Definition) (again : String),
        d.render? = some written ∧ Definition.parse written = .ok d' ∧ d'.render? = some again ∧
        d'.metadata.toValue = d.metadata.toValue.mapNumbers .reread ∧
        (again = written ↔ ∀ x ∈ d.metadata.toValue.numbers,
          ∃ y, Number.read? x.text = some y ∧ y.text = x.text) := by
  obtain ⟨d, hd, hblock⟩ : ∃ d, Definition.parse sampleNumbers = .ok d ∧ d.block.isSome = true :=
    exists_ok_of_any (by decide +kernel)
  obtain ⟨b, hb⟩ := Option.isSome_iff_exists.1 hblock
  exact ⟨d, b, hd, hb, render_again hd hb⟩

/-- The rendering of a block with one number. -/
def sampleRendering (number : String) : String := "config \x7b\n  \"a\": " ++ number ++ "\n\x7d"

/-- The first two renderings are not the same: the number loses a unit of its last place each time
it is read. -/
theorem render_again_drifts :
    ∃ d d' : Definition, Definition.parse "config \x7b a: 9.548620927814542 \x7d" = .ok d ∧
      d.block.isSome = true ∧ d.render? = some (sampleRendering "9.548620927814541") ∧
      Definition.parse (sampleRendering "9.548620927814541") = .ok d' ∧
      d'.render? = some (sampleRendering "9.54862092781454") ∧
      sampleRendering "9.54862092781454" ≠ sampleRendering "9.548620927814541" := by
  obtain ⟨d, hd, h⟩ : ∃ d, Definition.parse "config \x7b a: 9.548620927814542 \x7d" = .ok d ∧
      decide (d.block.isSome = true ∧ d.render? = some (sampleRendering "9.548620927814541")) =
        true := exists_ok_of_any (by decide +kernel)
  obtain ⟨d', hd', h'⟩ : ∃ d', Definition.parse (sampleRendering "9.548620927814541") = .ok d' ∧
      decide (d'.render? = some (sampleRendering "9.54862092781454")) = true :=
    exists_ok_of_any (by decide +kernel)
  obtain ⟨hblock, hwritten⟩ := of_decide_eq_true h
  exact ⟨d, d', hd, hblock, hwritten, hd', of_decide_eq_true h', by decide⟩

end Definition

end ColumnMetadata
