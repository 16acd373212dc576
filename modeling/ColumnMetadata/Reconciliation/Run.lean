import ColumnMetadata.Definition.Filling
import ColumnMetadata.Reconciliation.Listing
import ColumnMetadata.Reconciliation.Loading

/-!
# A run

A run finds the definition files that a path asks for, compiles the project, loads the files and
their dependencies, puts them in order, lists the datasets of their tables, and then completes one
file after the other. Dependencies come first, so a file inherits what its dependencies have been
given in the same run, whether or not that could be written to disk. What a run logs is left out.
-/

namespace ColumnMetadata

/-- A run at work on its files. -/
structure Merging where
  tree : FileTree
  /-- The definitions as they are in memory. -/
  graph : DefinitionGraph Definition
  report : Report

def DefinitionGraph.setContent {α : Type} (g : DefinitionGraph α) (id : Nat) (content : α) :
    DefinitionGraph α :=
  ⟨g.nodes.modify id fun n => { n with content }⟩

/-- The columns of a node as they are in memory. -/
def DefinitionGraph.columns (g : DefinitionGraph Definition) (id : Nat) : Columns :=
  ((g.node? id).map fun n => n.content.columns).getD []

/-- The columns of a definition, completed from its table and its dependencies. -/
def RunOptions.complete (o : RunOptions) (columns : Columns) (table : WarehouseTable)
    (dependencies : List Columns) : Columns :=
  let filled := (columns.fill table dependencies).columns
  if o.reorderColumns then filled.matchOrder table else filled

namespace Reconciliation

/-- Writes a completed definition, if its text changes. -/
def write (r : Reconciliation) (refused : Refusals) (m : Merging) (file old new : String) :
    Merging :=
  if new = old then { m with report := m.report.addOutcome ⟨file, .unchanged, none⟩ }
  else
    match m.tree.replaceText refused (r.configuration.resolve file) new with
    | .ok tree => { m with tree, report := m.report.addOutcome ⟨file, .updated, none⟩ }
    | .error cause =>
      { m with report := m.report.fail .writeFailed file ("Failed to write: " ++ cause.message) }

def mergeNode (r : Reconciliation) (refused : Refusals) (tables : List WarehouseTable)
    (m : Merging) (id : Nat) : Merging :=
  match m.graph.node? id with
  | none => m
  | some n =>
    let file := n.action.fileName
    let target := n.action.target
    match n.content.block, findTable? tables target.schema target.name with
    | none, _ =>
      { m with report := m.report.skip .configBlockMissing file
                "No config block found; file left unchanged" }
    | some _, none =>
      { m with report := m.report.skip .warehouseTableMissing file
                ("No BigQuery table found for " ++ target.text) }
    | some b, some table =>
      let columns :=
        r.options.complete n.content.columns table (n.dependencies.map m.graph.columns)
      let d := n.content.withColumns columns
      r.write refused { m with graph := m.graph.setContent id d } file d.text
        (String.ofList (b.replace d.metadata.render))

def mergeAll (r : Reconciliation) (refused : Refusals) (tables : List WarehouseTable)
    (m : Merging) (ids : List Nat) : Merging :=
  ids.foldl (r.mergeNode refused tables) m

end Reconciliation

/-- What is known before the warehouse is asked. -/
structure Plan where
  /-- The project to ask for. -/
  project : String
  /-- The requested files. -/
  files : List String
  build : GraphBuild Definition LoadError
  /-- The requested nodes, dependencies first. -/
  order : List Nat

namespace Plan

def datasets (p : Plan) : List String := p.build.graph.datasets p.order

/-- The report with the issues of the graph. -/
def report (p : Plan) (timestamp : String) : Report :=
  p.build.issues.foldl Report.addIssue (.start timestamp)

end Plan

/-- What a run leaves behind. -/
structure RunResult where
  tree : FileTree
  /-- The datasets that were listed. -/
  listings : List String
  result : Except RunError Merging

namespace Reconciliation

/-- Everything up to the listing of the warehouse. -/
def plan (r : Reconciliation) (t : FileTree) (path : String) : Except RunError Plan := do
  let project ← warehouseProject r.configuration r.settings
  let files ← (r.configuration.definitionFiles t path).mapError .discovery
  let compiled ← (r.compiler.compile t).mapError .compile
  let build := GraphBuild.run compiled files fun _ a => r.load t a
  let order ← build.graph.order.mapError .cycle
  .ok ⟨project, files, build, order⟩

/-- A run in a tree that something else may change while the warehouse is asked, on a system that
may refuse to replace files. -/
def runAmid (r : Reconciliation) (meanwhile : FileTree → FileTree) (timestamp : String)
    (t : FileTree) (path : String) (refused : Refusals := fun _ => none) : RunResult :=
  match r.plan t path with
  | .error e => ⟨t, [], .error e⟩
  | .ok p =>
    let answers := r.ask p.project p.datasets
    let listings := answers.map Prod.fst
    let tree := if listings.isEmpty then t else meanwhile t
    match collectListings (p.report timestamp) answers with
    | .error e => ⟨tree, listings, .error e⟩
    | .ok (tables, report) =>
      let m := r.mergeAll refused tables ⟨tree, p.build.graph, report⟩ p.order
      ⟨m.tree, listings, .ok m⟩

/-- A run in a tree that nothing else changes, on a system that refuses nothing. -/
def run (r : Reconciliation) (timestamp : String) (t : FileTree) (path : String) : RunResult :=
  r.runAmid id timestamp t path

end Reconciliation

end ColumnMetadata
