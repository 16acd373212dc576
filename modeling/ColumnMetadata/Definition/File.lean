import ColumnMetadata.Definition.Block
import ColumnMetadata.Definition.Metadata

/-!
# Definition files

A definition file is its text together with its configuration block and what the block says. It is
written back by replacing the block alone.
-/

namespace ColumnMetadata

/-- Why a definition file cannot be read. -/
inductive DefinitionError where
  /-- The block is not an object literal. -/
  | malformed (error : Literal.SyntaxError)
  /-- The block's object does not describe a definition. -/
  | invalid (cause : InvalidBlock)
deriving DecidableEq, Repr, Inhabited

def DefinitionError.message : DefinitionError → String
  | malformed e => e.message
  | invalid c => "Invalid config: " ++ c.message

/-- The metadata that an object literal describes. -/
def Metadata.parse (body : List Char) : Except DefinitionError Metadata := do
  let v ← (Literal.parse body).mapError .malformed
  (Metadata.ofValue v).mapError .invalid

/-- A definition file. -/
structure Definition where
  /-- The text as it was read. -/
  text : String
  /-- Where the block stands, if the file has one. -/
  block : Option Block
  /-- What the block says. -/
  metadata : Metadata
deriving DecidableEq, Repr

namespace Definition

/-- What the value in a located block says. The value has to fill the block. -/
def readBlock (text : List Char) (b : Block) : Except DefinitionError Metadata := do
  let (v, stop) ← (Literal.parseAt text b.bodyStart).mapError .malformed
  if stop = b.stop then (Metadata.ofValue v).mapError .invalid
  else .error (.malformed ⟨stop, .contentInBlock⟩)

/-- Reads a definition file. A file without a block says that it defines a table. -/
def parse (text : String) : Except DefinitionError Definition := do
  match ← (Block.locate text.toList).mapError .malformed with
  | none => .ok ⟨text, none, .emptyTable⟩
  | some b =>
    let m ← readBlock text.toList b
    .ok ⟨text, some b, m⟩

def columns (d : Definition) : Columns := d.metadata.columns

def withColumns (d : Definition) (cs : Columns) : Definition :=
  { d with metadata := { d.metadata with columns := cs } }

/-- The text with the block written anew; `none` for a file without a block. -/
def render? (d : Definition) : Option String :=
  d.block.map fun b => String.ofList (b.replace d.metadata.render)

end Definition

end ColumnMetadata
