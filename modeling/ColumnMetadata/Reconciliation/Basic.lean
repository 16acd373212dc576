import ColumnMetadata.Compiler.Basic
import ColumnMetadata.Project.Discovery
import ColumnMetadata.Project.Graph
import ColumnMetadata.Project.WorkflowSettings
import ColumnMetadata.Warehouse.Table

/-!
# Reconciliation

What a run works with, and why it may come to nothing. Up to the listing of the warehouse a run is all
or nothing: an error there (`RunError`) leaves every file as it was. From then on a failure concerns
one file and stands in the report.
-/

namespace ColumnMetadata

/-- The steps of a run that may end it. -/
inductive Phase where
  | discovering
  | compiling
  | sorting
  | fetchingSchemas
deriving DecidableEq, Repr, Inhabited

def Phase.name : Phase → String
  | discovering => "discovering"
  | compiling => "compiling"
  | sorting => "sorting"
  | fetchingSchemas => "fetching-schemas"

/-- Why a run comes to nothing. -/
inductive RunError where
  /-- Neither the configuration nor the settings name a warehouse project. -/
  | noWarehouseProject
  /-- The warehouse of the given name does not answer. -/
  | connection (warehouse : String) (cause : FetchError)
  | discovery (cause : DiscoveryError)
  | compile (cause : CompileError)
  /-- The files depend on each other in a circle. -/
  | cycle (files : List String)
  /-- A dataset could not be listed. -/
  | listing (dataset : String) (cause : FetchError)
deriving DecidableEq, Repr, Inhabited

namespace RunError

def phase : RunError → Phase
  | noWarehouseProject | connection _ _ | discovery _ => .discovering
  | compile _ => .compiling
  | cycle _ => .sorting
  | listing _ _ => .fetchingSchemas

def message : RunError → String
  | noWarehouseProject =>
    "Environment error: no warehouse project: set defaultProject in workflow_settings.yaml " ++
      "or [warehouse] project in osmosis.toml"
  | connection warehouse cause =>
    "Environment error: " ++ warehouse ++ " client is not working: " ++ cause.message
  | discovery cause => cause.message
  | compile cause => "Compile failed: " ++ cause.message
  | cycle files => cycleMessage files
  | listing dataset cause =>
    "Failed to list tables in dataset " ++ dataset ++ ": " ++ cause.message

end RunError

/-- The choices that a run may make otherwise than the configuration. -/
structure RunOptions where
  missingBlock : MissingBlockPolicy
  reorderColumns : Bool
deriving DecidableEq, Repr, Inhabited

def Configuration.options (c : Configuration) : RunOptions := ⟨c.missingBlock, c.reorderColumns⟩

/-- What a run works with. -/
structure Reconciliation where
  configuration : Configuration
  settings : WorkflowSettings
  options : RunOptions
  compiler : Compiler
  warehouse : Warehouse

/-- The project to ask the warehouse for: the configured one, else the project's default. -/
def warehouseProject (c : Configuration) (s : WorkflowSettings) : Except RunError String :=
  let project := c.warehouse.project.getD s.defaultProject
  if project.isEmpty then .error .noWarehouseProject else .ok project

/-- What a check of the environment finds. -/
structure Environment where
  compilerVersion : String
  warehouse : String
  project : String
deriving DecidableEq, Repr, Inhabited

namespace Reconciliation

/-- Checks that the compiler runs and that the warehouse answers. -/
def checkEnvironment (r : Reconciliation) (t : FileTree) : Except RunError Environment := do
  let version ← (r.compiler.version t).mapError .compile
  let project ← r.warehouse.connect.mapError (.connection r.warehouse.name)
  .ok ⟨version, r.warehouse.name, project⟩

end Reconciliation

end ColumnMetadata
