import ColumnMetadata.Files.Tree
import ColumnMetadata.Json.Record
import ColumnMetadata.Value.Printer

/-!
# Compiled projects

What the compiler says about a project: its actions, each with the file that defines it, the table
that it makes and the tables that it reads, and errors in the project as a whole. Only the fields
that completing metadata needs are read.
-/

namespace ColumnMetadata

/-- Where a table is in the warehouse. -/
structure Target where
  schema : String
  name : String
  database : Option String
deriving DecidableEq, Repr, Inhabited

namespace Target

/-- The names that tell tables of one warehouse apart: the database does not count. -/
def key (t : Target) : String × String := (t.schema, t.name)

/-- The names with points between them. -/
def text (t : Target) : String :=
  (t.database.map fun d => d ++ ".").getD "" ++ t.schema ++ "." ++ t.name

def toValue (t : Target) : Value :=
  .object ([("schema", .string t.schema), ("name", .string t.name)] ++
    (t.database.map fun d => ("database", Value.string d)).toList)

end Target

/-- An action of the project: a table, a declaration, an operation or an assertion. -/
structure ActionDescriptor where
  /-- The file that defines the action, as a path of the project. -/
  fileName : String
  target : Target
  canonicalTarget : Option Target
  /-- The tables that the action reads. -/
  dependencyTargets : List Target
  /-- The type of the action as the compiler names it. -/
  type : Option String
  disabled : Bool
deriving DecidableEq, Repr, Inhabited

def ActionDescriptor.toValue (d : ActionDescriptor) : Value :=
  .object ([("fileName", .string d.fileName), ("target", d.target.toValue)] ++
    (d.canonicalTarget.map fun t => ("canonicalTarget", t.toValue)).toList ++
    [("dependencyTargets", .array (d.dependencyTargets.map Target.toValue))] ++
    (d.type.map fun s => ("type", Value.string s)).toList ++
    [("disabled", .bool d.disabled)])

/-- A compiled project. -/
structure CompiledProject where
  tables : List ActionDescriptor
  declarations : List ActionDescriptor
  operations : List ActionDescriptor
  assertions : List ActionDescriptor
  projectConfig : Entries Value
  /-- Errors in the project, by their kind. -/
  graphErrors : Entries Value
  coreVersion : Option String
deriving DecidableEq, Repr, Inhabited

/-- Why there is no compiled project. -/
inductive CompiledProjectError where
  | unreadable (path : String) (cause : FileError)
  | malformed
  /-- The compiler found errors in the project. -/
  | graphErrors (entries : Entries Value)
deriving DecidableEq, Repr, Inhabited

namespace CompiledProject

def toValue (p : CompiledProject) : Value :=
  let actions (ds : List ActionDescriptor) : Value := .array (ds.map ActionDescriptor.toValue)
  .object ([("tables", actions p.tables), ("declarations", actions p.declarations),
    ("operations", actions p.operations), ("assertions", actions p.assertions),
    ("projectConfig", .object p.projectConfig), ("graphErrors", .object p.graphErrors)] ++
    (p.coreVersion.map fun v => ("dataformCoreVersion", Value.string v)).toList)

/-- All actions: tables, declarations, operations and then assertions. -/
def actions (p : CompiledProject) : List ActionDescriptor :=
  p.tables ++ p.declarations ++ p.operations ++ p.assertions

/-- The first action that a file defines. -/
def actionOf? (p : CompiledProject) (file : String) : Option ActionDescriptor :=
  p.actions.find? fun d => d.fileName == file

def graphErrorEntries (p : CompiledProject) : Entries Value :=
  p.graphErrors.filter fun e => !e.2.isVacant

def checked (p : CompiledProject) : Except CompiledProjectError CompiledProject :=
  if p.graphErrorEntries.isEmpty then .ok p else .error (.graphErrors p.graphErrorEntries)

end CompiledProject

def CompiledProjectError.graphErrorText (entries : Entries Value) : String :=
  "Compiler reported graph errors: " ++
    Text.joinStrings "; " (entries.map fun (kind, v) => kind ++ ": " ++ v.compactText)

def CompiledProjectError.message : CompiledProjectError → String
  | unreadable path cause => "Failed to read compiled project " ++ path ++ ": " ++ cause.message
  | malformed => "Failed to parse compiled project JSON: not a compiled project"
  | graphErrors entries => graphErrorText entries

/-! ## Reading -/

open Json

def Target.read? (t : Tree) : Option Target := do
  match ← t.record? [["schema"], ["name"], ["database"]] with
  | [schema, name, database] =>
    let schema ← schema.required Tree.text?
    let name ← name.required Tree.text?
    let database ← database.optional Tree.text?
    some ⟨schema, name, database⟩
  | _ => none

def ActionDescriptor.read? (t : Tree) : Option ActionDescriptor := do
  match ← t.record? [["fileName"], ["target"], ["canonicalTarget"], ["dependencyTargets"],
    ["type"], ["disabled"]] with
  | [fileName, target, canonicalTarget, dependencyTargets, type, disabled] =>
    let fileName ← fileName.withDefault "" Tree.text?
    let target ← target.required Target.read?
    let canonicalTarget ← canonicalTarget.optional Target.read?
    let dependencyTargets ← dependencyTargets.withDefault [] (Tree.list? Target.read?)
    let type ← type.optional Tree.text?
    let disabled ← disabled.withDefault false Tree.flag?
    some ⟨fileName, target, canonicalTarget, dependencyTargets, type, disabled⟩
  | _ => none

namespace CompiledProject

def fieldNames : List (List String) :=
  [["tables"], ["declarations"], ["operations"], ["assertions"], ["projectConfig"],
    ["graphErrors"], ["dataformCoreVersion"]]

def read? (t : Tree) : Option CompiledProject := do
  match ← t.record? fieldNames with
  | [tables, declarations, operations, assertions, config, errors, version] =>
    let actions (s : Slot) := s.withDefault [] (Tree.list? ActionDescriptor.read?)
    let entries (s : Slot) := s.withDefault [] (Tree.entries? (maxDepth - 1))
    let tables ← actions tables
    let declarations ← actions declarations
    let operations ← actions operations
    let assertions ← actions assertions
    let config ← entries config
    let errors ← entries errors
    let version ← version.optional Tree.text?
    some ⟨tables, declarations, operations, assertions, config, errors, version⟩
  | _ => none

def parse (text : String) : Except CompiledProjectError CompiledProject :=
  match (Json.read? text.toList).bind read? with
  | some p => .ok p
  | none => .error .malformed

def load (t : FileTree) (path : String) : Except CompiledProjectError CompiledProject :=
  match t.readText path with
  | .error cause => .error (.unreadable path cause)
  | .ok text => parse text

end CompiledProject

end ColumnMetadata
