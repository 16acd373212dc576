import ColumnMetadata.Definition.File
import ColumnMetadata.Proofs.Definition.Block
import ColumnMetadata.Proofs.Definition.Filling
import ColumnMetadata.Proofs.Definition.Metadata

/-!
# Definition files are written back faithfully

Only the block of a file is written anew, and the written file is read as a file with the same block
in the same place (`Definition.exists_parse_replace`). This holds of everything that filling can
make of a file's columns, as long as the numbers in the blocks are integers: a number with a
fraction need not be read as the number that it is printed for.
-/

namespace ColumnMetadata

namespace Definition

/-- The value in the block of a text, if it can be read. -/
def blockValue? (text : String) : Option Value :=
  match Block.locate text.toList with
  | .ok (some b) => ((Literal.parseAt text.toList b.bodyStart).toOption).map Prod.fst
  | _ => none

/-- Every number in the block of a text is read as an integer of 64 bits. -/
def IntegerNumbers (text : String) : Prop := ∀ v ∈ blockValue? text, v.IntegersOnly

instance (text : String) : Decidable (IntegerNumbers text) :=
  inferInstanceAs (Decidable (∀ v ∈ blockValue? text, v.IntegersOnly))

theorem wellFormed_emptyTable : Metadata.emptyTable.WellFormed where
  fields := Entries.distinct_singleton _
  noColumns := by decide
  values := List.forall_mem_singleton.2 (Value.within_string _)
  columns := .nil

/-- What a file with a block says: the block is located, and what its value describes is read. -/
theorem parse_block {text : String} {d : Definition} {b : Block} (h : Definition.parse text = .ok d)
    (hblock : d.block = some b) :
    d.text = text ∧ Block.locate text.toList = .ok (some b) ∧ ∃ v,
      Literal.parseAt text.toList b.bodyStart = .ok (v, b.stop) ∧
        Metadata.ofValue v = .ok d.metadata := by
  obtain ⟨located, hlocated, h⟩ := bind_eq_ok.1 h
  rw [mapError_eq_ok] at hlocated
  cases located with
  | none =>
    cases h
    cases hblock
  | some b' =>
    obtain ⟨m, hm, h⟩ := bind_eq_ok.1 h
    cases h
    cases hblock
    obtain ⟨⟨v, stop⟩, hv, hm⟩ := bind_eq_ok.1 hm
    rw [mapError_eq_ok] at hv
    dsimp only at hm
    split at hm
    · next hstop =>
      subst hstop
      exact ⟨rfl, hlocated, v, hv, mapError_eq_ok.1 hm⟩
    · cases hm

theorem text_of_parse {text : String} {d : Definition} (h : Definition.parse text = .ok d) :
    d.text = text := by
  obtain ⟨located, -, h⟩ := bind_eq_ok.1 h
  cases located with
  | none =>
    cases h
    rfl
  | some b =>
    obtain ⟨m, -, h⟩ := bind_eq_ok.1 h
    cases h
    rfl

/-- A file that is read has a block exactly when one is located in its text. -/
theorem block_eq_none_iff {text : String} {d : Definition} (h : Definition.parse text = .ok d) :
    d.block = none ↔ Block.locate text.toList = .ok none := by
  obtain ⟨located, hlocated, h⟩ := bind_eq_ok.1 h
  rw [mapError_eq_ok.1 hlocated]
  cases located with
  | none =>
    cases h
    exact ⟨fun _ => rfl, fun _ => rfl⟩
  | some b =>
    obtain ⟨m, -, h⟩ := bind_eq_ok.1 h
    cases h
    exact ⟨nofun, nofun⟩

/-- A file without a block says what is taken for a file without a block. -/
theorem metadata_of_parse {text : String} {d : Definition} (h : Definition.parse text = .ok d)
    (hblock : d.block = none) : d.metadata = .emptyTable := by
  obtain ⟨located, -, h⟩ := bind_eq_ok.1 h
  cases located with
  | none =>
    cases h
    rfl
  | some b =>
    obtain ⟨m, -, h⟩ := bind_eq_ok.1 h
    cases h
    cases hblock

/-- A file that can be read, and in whose block all numbers are integers, has well-formed content.
-/
theorem wellFormed_of_parse {text : String} {d : Definition} (h : Definition.parse text = .ok d)
    (hnumbers : IntegerNumbers text) : d.metadata.WellFormed := by
  cases hblock : d.block with
  | none =>
    rw [metadata_of_parse h hblock]
    exact wellFormed_emptyTable
  | some b =>
    obtain ⟨-, hlocated, v, hv, hm⟩ := parse_block h hblock
    refine .of_ofValue hm ⟨Literal.fits_of_parseAt hv, fun x hx => ?_⟩
    refine Number.IsInteger.rereads (hnumbers v ?_ x hx)
    rw [blockValue?, hlocated, Option.mem_def]
    dsimp only
    rw [hv]
    rfl

end Definition

/-! ## Writing and reading again -/

/-- The block with its content written anew. -/
def Block.rewritten (b : Block) (m : Metadata) : Block :=
  ⟨b.before, [' '], m.toValue.pretty 0, b.after⟩

namespace Definition

theorem content_rewritten (b : Block) (m : Metadata) : (b.rewritten m).content = m.render := rfl

/-- With other content in its block, a file is read as a file whose block is in the same place. It
says what the content says with its numbers read anew. -/
theorem parse_replace {text : String} {b : Block} {m m' : Metadata}
    (h : Block.locate text.toList = .ok (some b))
    (hm : m.toValue.Within Number.Legible Literal.maxDepth)
    (hread : Metadata.ofValue (m.toValue.mapNumbers .reread) = .ok m') :
    Definition.parse (String.ofList (b.replace m.render)) =
      .ok ⟨String.ofList (b.replace m.render), some (b.rewritten m), m'⟩ := by
  have hlocate : Block.locate (b.replace m.render) = .ok (some (b.rewritten m)) :=
    Block.locate_replace h hm.fits hm.numbers
  have hparse : Literal.parseAt (b.replace m.render) (b.rewritten m).bodyStart =
      .ok (m.toValue.mapNumbers .reread, (b.rewritten m).stop) :=
    Block.parseAt_body (b := b.rewritten m) rfl hm.fits hm.numbers
  rw [Definition.parse, String.toList_ofList, hlocate]
  refine bind_eq_ok.2 ⟨_, rfl, bind_eq_ok.2 ⟨m', ?_, rfl⟩⟩
  rw [readBlock, hparse]
  refine bind_eq_ok.2 ⟨_, rfl, ?_⟩
  dsimp only
  rw [if_pos rfl, hread]
  rfl

/-- When the numbers are read back as themselves, the content that is read agrees with the one
written. -/
theorem exists_parse_replace {text : String} {b : Block} {m : Metadata}
    (h : Block.locate text.toList = .ok (some b)) (hm : m.WellFormed) :
    ∃ m', Definition.parse (String.ofList (b.replace m.render)) =
        .ok ⟨String.ofList (b.replace m.render), some (b.rewritten m), m'⟩ ∧ m.Agree m' ∧
      m'.WellFormed := by
  obtain ⟨m', hread, hagree⟩ := Metadata.exists_ofValue_toValue hm
  have hwithin := Metadata.within_toValue hm
  have hreread : m.toValue.mapNumbers .reread = m.toValue :=
    Value.mapNumbers_eq_self fun x hx => (hwithin.numbers x hx).reread_eq
  refine ⟨m', ?_, hagree, .of_ofValue hread hwithin⟩
  exact parse_replace h ⟨hwithin.fits, fun x hx => (hwithin.numbers x hx).legible⟩
    (by rw [hreread, hread])

end Definition

/-! ## What filling can make of columns -/

/-- Columns become others by steps of filling and ordering. They inherit from files that can be
read and have integers only, whose own columns may have been filled before. -/
inductive Columns.MergesTo : Columns → Columns → Prop
  | refl (cs : Columns) : MergesTo cs cs
  | enrich {cs cs' : Columns} (h : MergesTo cs cs') (t : WarehouseTable) :
      MergesTo cs (cs'.enrich t).columns
  | inherit {cs cs' : Columns} (h : MergesTo cs cs') {text : String} {d : Definition}
      {inherited : Columns} (hparse : Definition.parse text = .ok d)
      (hnumbers : Definition.IntegerNumbers text) (hd : MergesTo d.columns inherited) :
      MergesTo cs (cs'.inherit inherited).columns
  | reorder {cs cs' : Columns} (h : MergesTo cs cs') (names : List String) :
      MergesTo cs (reorder names cs')

theorem Columns.MergesTo.wellFormed {cs cs' : Columns} (h : cs.MergesTo cs')
    (hcs : cs.WellFormed) : cs'.WellFormed := by
  induction h with
  | refl cs => exact hcs
  | enrich _ t ih => exact (ih hcs).enrich t
  | inherit _ hparse hnumbers _ ih ihd =>
    exact (ih hcs).inherit (ihd (Definition.wellFormed_of_parse hparse hnumbers).columns)
  | reorder _ names ih => exact (ih hcs).reorder names

namespace Definition

/-- A file with filled columns is written with everything outside the block as it was. The written
text is read again, the block is located in the same place and is what was written, and its content
is that of the file with the filled columns. -/
theorem exists_parse_render {text : String} {d : Definition} {b : Block} {cs : Columns}
    (hparse : Definition.parse text = .ok d) (hblock : d.block = some b)
    (hnumbers : IntegerNumbers text) (hcs : d.columns.MergesTo cs) :
    ∃ (r more : List Char) (written : String) (d' : Definition) (b' : Block),
      (d.withColumns cs).render? = some written ∧
      written.toList = Text.takeBytes b.start text.toList ++ r ++ Text.dropBytes b.stop text.toList ∧
      r = "config \x7b".toList ++ more ∧
      Definition.parse written = .ok d' ∧ d'.block = some b' ∧
      b'.start = b.start ∧ b'.stop = b.start + Text.bytes r ∧ b'.content = r ∧
      d'.metadata.toValue = (d.withColumns cs).metadata.toValue := by
  obtain ⟨-, hlocated, -⟩ := parse_block hparse hblock
  have hwell := wellFormed_of_parse hparse hnumbers
  have hm := hwell.withColumns (hcs.wellFormed hwell.columns)
  obtain ⟨m', hwritten, hagree, -⟩ := exists_parse_replace hlocated hm
  obtain ⟨more, hmore⟩ := Block.pretty_object_eq_cons (d.withColumns cs).metadata.toFields
  have htext := Block.text_of_locate hlocated
  refine ⟨(d.withColumns cs).metadata.render, more, _, _, _, ?_, ?_, ?_, hwritten, rfl, rfl, ?_,
    rfl, hagree.written⟩
  · rw [render?, withColumns, hblock]
    rfl
  · rw [String.toList_ofList, ← htext, Block.takeBytes_start, Block.dropBytes_stop, Block.replace]
    rfl
  · rw [Metadata.render, Metadata.toValue, hmore]
    rfl
  · rw [Block.stop_eq, content_rewritten]
    rfl

/-- A text with the keyword in an identifier, without a brace, and behind the block. -/
def sampleText : String :=
  "select reconfig \x7b from \"é\" -- config it\nconfig\n\x7btype: 'table', 'n\\'o': " ++
    "[-9223372036854775808, 18446744073709551615,], columns: \x7ba: 'x', " ++
    "b: \x7bmeta: null, bigqueryPolicyTags: 't'\x7d\x7d\x7d\n-- config \x7b\x7d"

/-- A text with quotes and a control character in its descriptions. -/
def sampleDependency : String :=
  "config \x7bcolumns: \x7bb: \x7bdescription: \"say \\\"hi\\\"\"\x7d, c: '\\u0007'\x7d\x7d"

theorem exists_parse_render_sample :
    ∃ (d e : Definition) (b : Block), Definition.parse sampleText = .ok d ∧ d.block = some b ∧
      Definition.parse sampleDependency = .ok e ∧
      (IntegerNumbers sampleText ∧ IntegerNumbers sampleDependency) ∧
      ∃ cs, cs = Columns.reorder ["d", "b"]
          (((d.columns.enrich ⟨"s", "t", [⟨"d", some "\n", some []⟩]⟩).columns).inherit
            e.columns).columns ∧
        d.columns.MergesTo cs ∧
        ∃ (r more : List Char) (written : String) (d' : Definition) (b' : Block),
          (d.withColumns cs).render? = some written ∧
          written.toList =
            Text.takeBytes b.start sampleText.toList ++ r ++ Text.dropBytes b.stop sampleText.toList ∧
          r = "config \x7b".toList ++ more ∧
          Definition.parse written = .ok d' ∧ d'.block = some b' ∧
          b'.start = b.start ∧ b'.stop = b.start + Text.bytes r ∧ b'.content = r ∧
          d'.metadata.toValue = (d.withColumns cs).metadata.toValue := by
  obtain ⟨d, hd, hblock⟩ : ∃ d, Definition.parse sampleText = .ok d ∧ d.block.isSome = true :=
    exists_ok_of_any (by decide +kernel)
  obtain ⟨e, he, -⟩ : ∃ e, Definition.parse sampleDependency = .ok e ∧ e.block.isSome = true :=
    exists_ok_of_any (by decide +kernel)
  obtain ⟨b, hb⟩ := Option.isSome_iff_exists.1 hblock
  have hnumbers : IntegerNumbers sampleText := by decide +kernel
  have hnumbers' : IntegerNumbers sampleDependency := by decide +kernel
  have hcs := (((Columns.MergesTo.refl d.columns).enrich
    ⟨"s", "t", [⟨"d", some "\n", some []⟩]⟩).inherit he hnumbers' (.refl _)).reorder ["d", "b"]
  exact ⟨d, e, b, hd, hb, he, ⟨hnumbers, hnumbers'⟩, _, rfl, hcs,
    exists_parse_render hd hb hnumbers hcs⟩

end Definition

end ColumnMetadata
