import ColumnMetadata.Files.Tree
import ColumnMetadata.Toml.Reader

/-!
# Configuration

The settings of this program for a project, from the file `osmosis.toml` in its root. Every setting
has a default, and settings that the program does not know are passed over.
-/

namespace ColumnMetadata

/-- What a file without a configuration block means. -/
inductive MissingBlockPolicy where
  /-- It is left alone. -/
  | lenient
  /-- It fails. -/
  | strict
deriving DecidableEq, Repr, Inhabited

namespace MissingBlockPolicy

def name : MissingBlockPolicy → String
  | lenient => "lenient"
  | strict => "strict"

def ofName? (s : String) : Option MissingBlockPolicy := [lenient, strict].find? fun p => p.name == s

end MissingBlockPolicy

/-- How the project is compiled. -/
structure CompilerSettings where
  /-- The command, with its first arguments. -/
  command : String
  /-- The seconds that a compilation may take. -/
  timeout : Option Nat
deriving DecidableEq, Repr, Inhabited

/-- How the warehouse is asked. -/
structure WarehouseSettings where
  /-- The project to ask, if it is not the default one. -/
  project : Option String
  /-- The file with the key of a service account. -/
  credentials : Option String
  /-- The seconds that one listing may take. -/
  timeout : Option Nat
  /-- How many listings may be under way at once. -/
  maxConcurrentFetches : Nat
deriving DecidableEq, Repr, Inhabited

/-- The configuration of a project. -/
structure Configuration where
  definitionsDir : String
  /-- The extension of definition files, without its point. -/
  extension : String
  missingBlock : MissingBlockPolicy
  reorderColumns : Bool
  compiler : CompilerSettings
  warehouse : WarehouseSettings
  /-- The directory in which project paths begin. -/
  root : String
deriving DecidableEq, Repr, Inhabited

/-- Why there is no configuration. -/
inductive ConfigurationError where
  | unreadable (path : String) (cause : FileError)
  | malformed
deriving DecidableEq, Repr, Inhabited

def ConfigurationError.message : ConfigurationError → String
  | unreadable path cause => "IO error: " ++ path ++ ": " ++ cause.message
  | malformed => "Parse error: not a configuration in TOML"

def CompilerSettings.default : CompilerSettings := ⟨"dataform", none⟩

def WarehouseSettings.default : WarehouseSettings := ⟨none, none, none, 8⟩

def settingOr {α : Type} (fallback : α) (read : Toml.Item → Option α) : Option Toml.Item → Option α
  | none => some fallback
  | some v => read v

def CompilerSettings.ofToml? (v : Toml.Item) : Option CompilerSettings := do
  match ← v.record? ["command", "timeout_secs"] with
  | [command, timeout] =>
    let command ← settingOr CompilerSettings.default.command Toml.Item.string? command
    let timeout ← settingOr none (fun v => v.natural?.map some) timeout
    some ⟨command, timeout⟩
  | _ => none

def WarehouseSettings.ofToml? (v : Toml.Item) : Option WarehouseSettings := do
  match ← v.record? ["project", "credentials", "timeout_secs", "max_concurrent_fetches"] with
  | [project, credentials, timeout, limit] =>
    let project ← settingOr none (fun v => v.string?.map some) project
    let credentials ← settingOr none (fun v => v.string?.map some) credentials
    let timeout ← settingOr none (fun v => v.natural?.map some) timeout
    let limit ← settingOr WarehouseSettings.default.maxConcurrentFetches Toml.Item.natural? limit
    some ⟨project, credentials, timeout, limit⟩
  | _ => none

namespace Configuration

def default (root : String) : Configuration :=
  ⟨"definitions", "sqlx", .lenient, false, .default, .default, root⟩

def fileName : String := "osmosis.toml"

/-- The configuration that a text describes, for a project with the given root. -/
def parse (root text : String) : Except ConfigurationError Configuration :=
  let read : Option Configuration := do
    let d := default root
    let t ← Toml.read? text.toList
    let at_ (key : String) := Entries.find? key t
    let definitionsDir ← settingOr d.definitionsDir Toml.Item.string? (at_ "definitions_dir")
    let extension ← settingOr d.extension Toml.Item.string? (at_ "extension")
    let missingBlock ← settingOr d.missingBlock
      (Toml.Item.choice? MissingBlockPolicy.ofName?) (at_ "missing_config")
    let reorderColumns ← settingOr d.reorderColumns Toml.Item.bool? (at_ "reorder_columns")
    let compiler ← settingOr d.compiler CompilerSettings.ofToml? (at_ "compiler")
    let warehouse ← settingOr d.warehouse WarehouseSettings.ofToml? (at_ "warehouse")
    some ⟨definitionsDir, extension, missingBlock, reorderColumns, compiler, warehouse, root⟩
  match read with
  | some c => .ok c
  | none => .error .malformed

/-- The configuration in a file; its directory is the project's root. -/
def load (t : FileTree) (path : String) : Except ConfigurationError Configuration :=
  match t.readText path with
  | .error cause => .error (.unreadable path cause)
  | .ok text => parse ((Path.parent? path).getD "") text

/-- The configuration of the project with a root: from its file, else the default one. -/
def discover (t : FileTree) (root : String) : Except ConfigurationError Configuration :=
  let path := Path.join root fileName
  if t.contains path then (load t path).map fun c => { c with root }
  else .ok (default root)

/-- A path of the project as a path of the system. -/
def resolve (c : Configuration) (path : String) : String := Path.join c.root path

end Configuration

end ColumnMetadata
