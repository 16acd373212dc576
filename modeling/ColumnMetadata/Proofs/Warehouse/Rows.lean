import Mathlib.Data.List.Chain
import Mathlib.Data.List.Forall2
import ColumnMetadata.Proofs.Basic
import ColumnMetadata.Proofs.Text.Splitting
import ColumnMetadata.Warehouse.Rows

/-!
# What rows say about tables

The tables that are read from rows have the columns of the rows in order, none of them is empty, and
no two neighbours have the same name (`grouped_groupRows`). There is only one list of tables like
that (`Grouped.unique`), so tables with different names that are written as rows are what is read
from the rows (`reading_rows_gives_tables`).
-/

namespace ColumnMetadata

namespace BigQuery

/-! ## Cells -/

/-- What a cell says: a text, or nothing when it is null or not there. -/
inductive Says : Option Value → Option String → Prop
  | text (s : String) : Says (some (.string s)) (some s)
  | null : Says (some .null) none
  | absent : Says none none

/-- The cells of a row, in the order of the query's columns. -/
inductive Row.WrittenAs (r : Row) : List (Option Value) → Prop
  | cells {description policyTags : Option Value} (hdescription : Says description r.description)
      (htags : Says policyTags r.policyTags) :
      WrittenAs r [some (.string r.table), some (.string r.column), description, policyTags]

theorem Says.cellText_eq {cells : List (Option Value)} {i : Nat} {cell : Option Value}
    {text : Option String} (h : Says cell text) (hcell : cells[i]? = some cell) (name : String) :
    cellText cells i name = .ok text := by
  unfold cellText
  rw [hcell]
  cases h <;> rfl

theorem requiredText_eq {cells : List (Option Value)} {i : Nat} {s : String}
    (hcell : cells[i]? = some (some (.string s))) (name : String) :
    requiredText cells i name = .ok s := by
  rw [requiredText, (Says.text s).cellText_eq hcell]
  rfl

/-- A row is read from the cells that it is written as. -/
theorem Row.WrittenAs.ofCells_eq {r : Row} {cells : List (Option Value)} (h : r.WrittenAs cells) :
    Row.ofCells cells = .ok r := by
  obtain ⟨hdescription, htags⟩ := h
  rw [Row.ofCells, requiredText_eq (i := 0) rfl, requiredText_eq (i := 1) rfl,
    hdescription.cellText_eq (i := 2) rfl, htags.cellText_eq (i := 3) rfl]
  rfl

/-- Rows are read one by one. -/
theorem mapM_ofCells_eq {rows : List Row} {answer : List (List (Option Value))}
    (h : List.Forall₂ Row.WrittenAs rows answer) : answer.mapM Row.ofCells = .ok rows := by
  induction h with
  | nil => rfl
  | cons hcells _ ih =>
    rw [List.mapM_cons, hcells.ofCells_eq, ih]
    rfl

/-! ## Fields -/

/-- A tag that is found again in a list joined with commas. -/
def IsTag (tag : String) : Prop :=
  tag ≠ "" ∧ ',' ∉ tag.toList ∧ (∀ c ∈ tag.toList.head?, Text.isBlank c = false) ∧
    ∀ c ∈ tag.toList.getLast?, Text.isBlank c = false

theorem splitTags_joinStrings {tags : List String} (hne : tags ≠ []) (h : ∀ t ∈ tags, IsTag t) :
    splitTags (Text.joinStrings "," tags) = some tags := by
  have hparts :
      Text.splitOnChar ',' (Text.joinStrings "," tags).toList = tags.map String.toList := by
    rw [Text.joinStrings, String.toList_ofList]
    refine Text.splitOnChar_join (by simpa using hne) fun part hpart => ?_
    obtain ⟨tag, htag, rfl⟩ := List.mem_map.1 hpart
    exact (h tag htag).2.1
  have htrim : (tags.map String.toList).map Text.trim = tags.map String.toList := by
    rw [List.map_map]
    refine List.map_congr_left fun tag htag => ?_
    obtain ⟨-, -, hfirst, hlast⟩ := h tag htag
    exact Text.trim_eq_self hfirst hlast
  have hfilter : (tags.map String.toList).filter (fun part => !part.isEmpty) =
      tags.map String.toList := by
    refine List.filter_eq_self.2 fun part hpart => ?_
    obtain ⟨tag, htag, rfl⟩ := List.mem_map.1 hpart
    simpa using (h tag htag).1
  rw [splitTags, hparts]
  simp [htrim, hfilter, hne, Function.comp_def]

end BigQuery

/-! ## Fields and tables as rows -/

namespace WarehouseField

/-- A description that is set is not empty, and tags that are set are some tags. -/
structure Listed (f : WarehouseField) : Prop where
  description : ∀ d ∈ f.description, d ≠ ""
  tags : ∀ tags ∈ f.policyTags, tags ≠ [] ∧ ∀ t ∈ tags, BigQuery.IsTag t

/-- The row about a field of a table. -/
def row (table : String) (f : WarehouseField) : BigQuery.Row :=
  ⟨table, f.name, f.description, f.policyTags.map (Text.joinStrings ",")⟩

/-- The row about a field is read as the field. -/
theorem Listed.field_row {f : WarehouseField} (h : f.Listed) (table : String) :
    (f.row table).field = f := by
  obtain ⟨name, description, policyTags⟩ := f
  have hdescription : (description.filter fun d => !d.isEmpty) = description := by
    cases description with
    | none => rfl
    | some d => simpa using h.description d rfl
  have htags : (policyTags.map (Text.joinStrings ",")).bind BigQuery.splitTags = policyTags := by
    cases policyTags with
    | none => rfl
    | some tags =>
      obtain ⟨hne, hall⟩ := h.tags tags rfl
      exact BigQuery.splitTags_joinStrings hne hall
  rw [BigQuery.Row.field, row, hdescription, htags]

end WarehouseField

/-- The rows about a table, one for each of its fields. -/
def WarehouseTable.rows (t : WarehouseTable) : List BigQuery.Row :=
  t.fields.map (WarehouseField.row t.name)

namespace BigQuery

variable {dataset : String} {r : Row} {rows : List Row} {t : WarehouseTable}
  {tables : List WarehouseTable}

/-! ## Grouping -/

/-- The fields of tables in order, each with the name of its table. -/
def entries (tables : List WarehouseTable) : List (String × WarehouseField) :=
  tables.flatMap fun t => t.fields.map fun f => (t.name, f)

/-- How tables of a dataset are put together from rows. -/
structure Grouped (dataset : String) (rows : List Row) (tables : List WarehouseTable) : Prop where
  dataset : ∀ t ∈ tables, t.dataset = dataset
  entries : entries tables = rows.map fun r => (r.table, r.field)
  filled : ∀ t ∈ tables, t.fields ≠ []
  apart : tables.IsChain fun t u => t.name ≠ u.name

theorem entries_cons (t : WarehouseTable) (tables : List WarehouseTable) :
    entries (t :: tables) = t.fields.map (fun f => (t.name, f)) ++ entries tables :=
  List.flatMap_cons

/-- Neighbours have different names whatever the fields of the first table are. -/
theorem isChain_cons_congr {u : WarehouseTable}
    (h : (t :: tables).IsChain fun t u => t.name ≠ u.name) (hname : u.name = t.name) :
    (u :: tables).IsChain fun t u => t.name ≠ u.name := by
  rw [List.isChain_cons] at h ⊢
  rwa [hname]

/-- A row in front of the others goes to the first table if it is about that one, and else it
begins a table. -/
theorem addRow_cases (dataset : String) (r : Row) (tables : List WarehouseTable) :
    (∃ t ts, tables = t :: ts ∧ t.name = r.table ∧
      addRow dataset r tables = { t with fields := r.field :: t.fields } :: ts) ∨
    (∀ t ∈ tables.head?, r.table ≠ t.name) ∧
      addRow dataset r tables = ⟨dataset, r.table, [r.field]⟩ :: tables := by
  cases tables with
  | nil => exact .inr ⟨nofun, rfl⟩
  | cons t ts =>
    by_cases hname : t.name = r.table
    · exact .inl ⟨t, ts, rfl, hname, if_pos hname⟩
    · refine .inr ⟨fun u hu => ?_, if_neg hname⟩
      cases hu
      exact Ne.symm hname

theorem Grouped.addRow (h : Grouped dataset rows tables) (r : Row) :
    Grouped dataset (r :: rows) (addRow dataset r tables) := by
  rcases addRow_cases dataset r tables with ⟨t, ts, rfl, hname, hadd⟩ | ⟨hnew, hadd⟩
  · obtain ⟨hdataset, hdatasets⟩ := List.forall_mem_cons.1 h.dataset
    rw [hadd]
    refine ⟨List.forall_mem_cons.2 ⟨hdataset, hdatasets⟩, ?_,
      List.forall_mem_cons.2 ⟨List.cons_ne_nil _ _, (List.forall_mem_cons.1 h.filled).2⟩,
      isChain_cons_congr h.apart rfl⟩
    rw [List.map_cons, ← h.entries, entries_cons, entries_cons, ← hname]
    rfl
  · rw [hadd]
    refine ⟨List.forall_mem_cons.2 ⟨rfl, h.dataset⟩, ?_,
      List.forall_mem_cons.2 ⟨List.cons_ne_nil _ _, h.filled⟩,
      List.isChain_cons.2 ⟨hnew, h.apart⟩⟩
    rw [List.map_cons, ← h.entries, entries_cons]
    rfl

theorem grouped_groupRows (dataset : String) (rows : List Row) :
    Grouped dataset rows (groupRows dataset rows) := by
  induction rows with
  | nil => exact ⟨nofun, rfl, nofun, .nil⟩
  | cons r rows ih => exact ih.addRow r

/-- Without its first field, the first table is what is left of its rows, or it is gone. -/
theorem Grouped.exists_rest (h : Grouped dataset (r :: rows) tables) :
    ∃ rest, Grouped dataset rows rest ∧ BigQuery.addRow dataset r rest = tables := by
  match tables with
  | [] => cases h.entries
  | ⟨d, name, []⟩ :: ts => exact absurd rfl (h.filled _ List.mem_cons_self)
  | ⟨d, name, f :: fs⟩ :: ts =>
    obtain ⟨hdataset, hdatasets⟩ := List.forall_mem_cons.1 h.dataset
    obtain ⟨-, hfilled⟩ := List.forall_mem_cons.1 h.filled
    obtain ⟨hentry, hentries⟩ := List.cons.inj h.entries
    obtain ⟨rfl, rfl⟩ := Prod.mk.inj hentry
    cases hdataset
    cases fs with
    | nil =>
      -- The row is all that its table has, so the tables behind it are those of the other rows.
      obtain ⟨hnew, hchain⟩ := List.isChain_cons.1 h.apart
      refine ⟨ts, ⟨hdatasets, hentries, hfilled, hchain⟩, ?_⟩
      rcases addRow_cases d r ts with ⟨t, _, rfl, hname, -⟩ | ⟨-, hadd⟩
      · exact absurd hname.symm (hnew t rfl)
      · exact hadd
    | cons f fs =>
      refine ⟨⟨d, r.table, f :: fs⟩ :: ts, ⟨List.forall_mem_cons.2 ⟨rfl, hdatasets⟩, hentries,
        List.forall_mem_cons.2 ⟨List.cons_ne_nil f fs, hfilled⟩,
        isChain_cons_congr h.apart rfl⟩, if_pos rfl⟩

/-- There is only one way to put tables together from rows. -/
theorem Grouped.unique (h : Grouped dataset rows tables) : groupRows dataset rows = tables := by
  induction rows generalizing tables with
  | nil =>
    match tables with
    | [] => rfl
    | ⟨d, name, []⟩ :: ts => exact absurd rfl (h.filled _ List.mem_cons_self)
    | ⟨d, name, f :: fs⟩ :: ts => cases h.entries
  | cons r rows ih =>
    obtain ⟨rest, hrest, hadd⟩ := h.exists_rest
    rw [← hadd, ← ih hrest]
    rfl

/-- Tables with different names are put together again from the rows about them. -/
theorem groupRows_rows (hlisted : ∀ t ∈ tables, t.dataset = dataset ∧ t.fields ≠ [] ∧
      ∀ f ∈ t.fields, f.Listed) (hnames : (tables.map WarehouseTable.name).Nodup) :
    groupRows dataset (tables.flatMap WarehouseTable.rows) = tables := by
  refine Grouped.unique ⟨fun t ht => (hlisted t ht).1, ?_, fun t ht => (hlisted t ht).2.1,
    (List.pairwise_map.1 hnames).isChain⟩
  rw [entries, List.map_flatMap]
  refine List.flatMap_congr fun t ht => ?_
  rw [WarehouseTable.rows, List.map_map]
  refine List.map_congr_left fun f hf => ?_
  rw [Function.comp_apply, ((hlisted t ht).2.2 f hf).field_row]
  rfl

/-- Tables of a dataset with different names and some fields each, written as rows, are what is read
from the rows. And whatever the rows are, the tables that are read from them have their columns in
their order, each under the name of its row's table, no table is empty, and no two neighbours have
the same name. -/
theorem reading_rows_gives_tables (dataset : String) :
    (∀ (tables : List WarehouseTable) (answer : List (List (Option Value))),
      (∀ t ∈ tables, t.dataset = dataset ∧ t.fields ≠ [] ∧ ∀ f ∈ t.fields, f.Listed) →
      (tables.map WarehouseTable.name).Nodup →
      List.Forall₂ Row.WrittenAs (tables.flatMap WarehouseTable.rows) answer →
      ∃ rows, answer.mapM Row.ofCells = .ok rows ∧ groupRows dataset rows = tables) ∧
    ∀ rows : List Row,
      (groupRows dataset rows).flatMap WarehouseTable.fields = rows.map Row.field ∧
      ((groupRows dataset rows).flatMap fun t => t.fields.map fun f => (t.name, f)) =
        rows.map (fun r => (r.table, r.field)) ∧
      (∀ t ∈ groupRows dataset rows, t.dataset = dataset ∧ t.fields ≠ []) ∧
      (groupRows dataset rows).IsChain fun t u => t.name ≠ u.name := by
  refine ⟨fun tables answer hlisted hnames hanswer => ?_, fun rows => ?_⟩
  · exact ⟨_, mapM_ofCells_eq hanswer, groupRows_rows hlisted hnames⟩
  · have h := grouped_groupRows dataset rows
    refine ⟨?_, h.entries, fun t ht => ⟨h.dataset t ht, h.filled t ht⟩, h.apart⟩
    have hfields := congrArg (List.map Prod.snd) h.entries
    rw [entries, List.map_flatMap, List.map_map] at hfields
    simpa [Function.comp_def] using hfields

/-- Two tables, with a column that has nothing and one that has everything. -/
def sampleTables : List WarehouseTable :=
  [⟨"s", "orders",
      [⟨"id", none, none⟩, ⟨"email", some "Where to write", some ["pii", "raw data"]⟩]⟩,
    ⟨"s", "users", [⟨"id", some "Who it is", none⟩]⟩]

/-- Their rows, with both ways in which a cell says nothing. -/
def sampleAnswer : List (List (Option Value)) :=
  [[some (.string "orders"), some (.string "id"), some .null, none],
    [some (.string "orders"), some (.string "email"), some (.string "Where to write"),
      some (.string "pii,raw data")],
    [some (.string "users"), some (.string "id"), some (.string "Who it is"), none]]

theorem listed_sampleTables :
    ∀ t ∈ sampleTables, t.dataset = "s" ∧ t.fields ≠ [] ∧ ∀ f ∈ t.fields, f.Listed := by
  have hends : (Text.isBlank 'p' = false ∧ Text.isBlank 'i' = false) ∧
      Text.isBlank 'r' = false ∧ Text.isBlank 'a' = false := by decide
  have htags : ∀ t ∈ ["pii", "raw data"], IsTag t := by simpa [IsTag] using hends
  intro t ht
  simp only [sampleTables, List.mem_cons, List.not_mem_nil, or_false] at ht
  rcases ht with rfl | rfl
  · refine ⟨rfl, List.cons_ne_nil _ _, List.forall_mem_cons.2 ⟨⟨nofun, nofun⟩,
      List.forall_mem_singleton.2 ⟨?_, ?_⟩⟩⟩
    · rintro _ ⟨⟩
      decide
    · rintro _ ⟨⟩
      exact ⟨List.cons_ne_nil _ _, htags⟩
  · refine ⟨rfl, List.cons_ne_nil _ _, List.forall_mem_singleton.2 ⟨?_, nofun⟩⟩
    rintro _ ⟨⟩
    decide

theorem writtenAs_sampleAnswer :
    List.Forall₂ Row.WrittenAs (sampleTables.flatMap WarehouseTable.rows) sampleAnswer :=
  .cons ⟨.null, .absent⟩ (.cons ⟨.text _, .text _⟩ (.cons ⟨.text _, .absent⟩ .nil))

theorem reading_rows_gives_tables_sample :
    (∀ t ∈ sampleTables, t.dataset = "s" ∧ t.fields ≠ [] ∧ ∀ f ∈ t.fields, f.Listed) ∧
    (sampleTables.map WarehouseTable.name).Nodup ∧
    List.Forall₂ Row.WrittenAs (sampleTables.flatMap WarehouseTable.rows) sampleAnswer ∧
    ∃ rows, sampleAnswer.mapM Row.ofCells = .ok rows ∧ groupRows "s" rows = sampleTables := by
  have hnames : (sampleTables.map WarehouseTable.name).Nodup := by decide
  refine ⟨listed_sampleTables, hnames, writtenAs_sampleAnswer, ?_⟩
  exact (reading_rows_gives_tables "s").1 sampleTables sampleAnswer listed_sampleTables hnames
    writtenAs_sampleAnswer

end BigQuery

end ColumnMetadata
