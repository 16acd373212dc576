import ColumnMetadata.Project.Compiled
import ColumnMetadata.Project.Order

/-!
# The graph of definition files

The files that were asked for, the files that they depend on, and the dependencies between them. A
node is known by its place in the list of nodes. First come the requested nodes in the order of
their files, then the dependencies outside the request in the order in which they were met. Every
file is loaded at most once; what could not be found or loaded is an issue, and the graph does
without it.
-/

namespace ColumnMetadata

/-! ## Looking up targets -/

/-- Actions under the keys of their targets. -/
structure TargetIndex where
  entries : List ((String × String) × ActionDescriptor)
deriving DecidableEq, Repr

namespace TargetIndex

def find? (index : TargetIndex) (key : String × String) : Option ActionDescriptor :=
  index.entries.lookup key

/-- Puts an action under a key that is free. -/
def offer (index : TargetIndex) (key : String × String) (d : ActionDescriptor) : TargetIndex :=
  if (index.find? key).isSome then index else ⟨index.entries ++ [(key, d)]⟩

/-- The index of a project: the targets of its tables and declarations, then their canonical
targets; of two actions with one key the first counts. -/
def ofProject (p : CompiledProject) : TargetIndex :=
  let candidates := p.tables ++ p.declarations
  let targets := candidates.foldl (fun index d => index.offer d.target.key d) (TargetIndex.mk [])
  candidates.foldl (fun index d =>
    match d.canonicalTarget with
    | some t => index.offer t.key d
    | none => index) targets

def size (index : TargetIndex) : Nat := index.entries.length

/-- The action that makes a table. -/
def resolve? (index : TargetIndex) (t : Target) : Option ActionDescriptor := index.find? t.key

end TargetIndex

/-! ## Graphs -/

/-- A definition file in a graph. -/
structure GraphNode (α : Type) where
  action : ActionDescriptor
  /-- What was loaded from the file. -/
  content : α
  /-- The nodes that the action reads, each once, in the order of its targets. -/
  dependencies : List Nat
  /-- Whether the file was asked for. Only then are its dependencies followed. -/
  requested : Bool
deriving DecidableEq, Repr, Inhabited

/-- Something that a graph does without. -/
inductive GraphIssue (ε : Type) where
  /-- A requested file defines no action. -/
  | descriptorMissing (file : String)
  /-- A table that a file reads is not part of the project. -/
  | dependencyUnresolved (file : String) (target : Target)
  /-- A file could not be loaded. -/
  | loadFailed (file : String) (requested : Bool) (error : ε)
deriving DecidableEq, Repr, Inhabited

/-- A graph of definition files. -/
structure DefinitionGraph (α : Type) where
  nodes : List (GraphNode α)
deriving DecidableEq, Repr, Inhabited

namespace DefinitionGraph

variable {α : Type}

def node? (g : DefinitionGraph α) (id : Nat) : Option (GraphNode α) := g.nodes[id]?

def requested (g : DefinitionGraph α) : List Nat :=
  (List.range g.nodes.length).filter fun id => (g.node? id).any GraphNode.requested

def findFile? (g : DefinitionGraph α) (file : String) : Option Nat :=
  g.nodes.findIdx? fun n => n.action.fileName == file

def dependencies (g : DefinitionGraph α) (id : Nat) : List Nat :=
  ((g.node? id).map GraphNode.dependencies).getD []

/-- The dependencies of a node that were requested themselves. -/
def requestedDependencies (g : DefinitionGraph α) (id : Nat) : List Nat :=
  (g.dependencies id).filter fun d => (g.node? d).any GraphNode.requested

def file (g : DefinitionGraph α) (id : Nat) : String :=
  ((g.node? id).map fun n => n.action.fileName).getD ""

/-- The requested nodes with each one behind those that it depends on, or the files that stand in the
way: those on a cycle of dependencies, or depending on one. -/
def order (g : DefinitionGraph α) : Except (List String) (List Nat) :=
  match Order.blocked g.requestedDependencies g.requested with
  | [] => .ok (Order.visited g.requestedDependencies g.requested)
  | ids => .error (ids.map g.file)

def dataset? (g : DefinitionGraph α) (id : Nat) : Option String :=
  (g.node? id).map fun n => n.action.target.schema

/-- The datasets of nodes and then of their dependencies, each once. -/
def datasets (g : DefinitionGraph α) (ids : List Nat) : List String :=
  ((ids ++ ids.flatMap g.dependencies).filterMap g.dataset?).eraseDups

end DefinitionGraph

/-- What is said about files on a cycle. -/
def cycleMessage (files : List String) : String :=
  "Circular dependency between definition files: " ++ Text.joinStrings ", " files

/-! ## Building -/

/-- A graph under construction. -/
structure GraphBuild (α ε : Type) where
  nodes : List (GraphNode α)
  issues : List (GraphIssue ε)
  /-- The first node for each target. -/
  ids : List ((String × String) × Nat)
  /-- The targets whose file could not be loaded. -/
  failed : List (String × String)
  /-- The actions that were loaded, in order, with and without success. -/
  loads : List ActionDescriptor

namespace GraphBuild

variable {α ε : Type}

def empty : GraphBuild α ε := ⟨[], [], [], [], []⟩

def graph (b : GraphBuild α ε) : DefinitionGraph α := ⟨b.nodes⟩

def note (b : GraphBuild α ε) (i : GraphIssue ε) : GraphBuild α ε :=
  { b with issues := b.issues ++ [i] }

def push (b : GraphBuild α ε) (d : ActionDescriptor) (content : α) (requested : Bool) :
    GraphBuild α ε :=
  { b with
    nodes := b.nodes ++ [⟨d, content, [], requested⟩]
    ids := if (b.ids.lookup d.target.key).isSome then b.ids
      else b.ids ++ [(d.target.key, b.nodes.length)]
    loads := b.loads ++ [d] }

def fail (b : GraphBuild α ε) (d : ActionDescriptor) (requested : Bool) (e : ε) : GraphBuild α ε :=
  { b with
    issues := b.issues ++ [.loadFailed d.fileName requested e]
    failed := b.failed ++ [d.target.key]
    loads := b.loads ++ [d] }

/-- Loads an action. The loader is told how many loads there were before. -/
def load (loader : Nat → ActionDescriptor → Except ε α) (requested : Bool) (b : GraphBuild α ε)
    (d : ActionDescriptor) : GraphBuild α ε :=
  match loader b.loads.length d with
  | .ok content => b.push d content requested
  | .error e => b.fail d requested e

def request (p : CompiledProject) (loader : Nat → ActionDescriptor → Except ε α)
    (b : GraphBuild α ε) (file : String) : GraphBuild α ε :=
  match p.actionOf? file with
  | none => b.note (.descriptorMissing file)
  | some d => b.load loader true d

/-- The node of an action, which is loaded if it has not been loaded yet. -/
def nodeOf (loader : Nat → ActionDescriptor → Except ε α) (b : GraphBuild α ε)
    (d : ActionDescriptor) : GraphBuild α ε × Option Nat :=
  match b.ids.lookup d.target.key with
  | some id => (b, some id)
  | none =>
    if b.failed.contains d.target.key then (b, none)
    else
      let b := b.load loader false d
      (b, b.ids.lookup d.target.key)

def follow (index : TargetIndex) (loader : Nat → ActionDescriptor → Except ε α) (file : String)
    (state : GraphBuild α ε × List Nat) (t : Target) : GraphBuild α ε × List Nat :=
  let (b, found) := state
  match index.resolve? t with
  | none => (b.note (.dependencyUnresolved file t), found)
  | some d =>
    match b.nodeOf loader d with
    | (b, none) => (b, found)
    | (b, some id) => (b, if found.contains id then found else found ++ [id])

def link (index : TargetIndex) (loader : Nat → ActionDescriptor → Except ε α) (b : GraphBuild α ε)
    (id : Nat) : GraphBuild α ε :=
  match b.nodes[id]? with
  | none => b
  | some n =>
    let (b, found) :=
      n.action.dependencyTargets.foldl (follow index loader n.action.fileName) (b, [])
    { b with nodes := b.nodes.modify id fun n => { n with dependencies := found } }

end GraphBuild

/-- Builds the graph for files; a file that is named again does not count. -/
def GraphBuild.run {α ε : Type} (p : CompiledProject) (files : List String)
    (loader : Nat → ActionDescriptor → Except ε α) : GraphBuild α ε :=
  let requested := files.eraseDups.foldl (request p loader) .empty
  (List.range requested.nodes.length).foldl (link (.ofProject p) loader) requested

end ColumnMetadata
