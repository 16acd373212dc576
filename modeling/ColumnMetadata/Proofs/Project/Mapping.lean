import ColumnMetadata.Project.Graph
import ColumnMetadata.Proofs.Basic

/-!
# Graphs with other contents

How a graph is built does not depend on what is loaded, only on whether it can be loaded
(`GraphBuild.run_map`). Neither do the order of a graph and the datasets of its nodes
(`DefinitionGraph.order_map`, `DefinitionGraph.datasets_map`).
-/

namespace ColumnMetadata

variable {α β ε : Type} (f : α → β)

/-- The node with another content. -/
def GraphNode.map (n : GraphNode α) : GraphNode β :=
  ⟨n.action, f n.content, n.dependencies, n.requested⟩

namespace DefinitionGraph

/-- The graph with other contents. -/
def map (g : DefinitionGraph α) : DefinitionGraph β := ⟨g.nodes.map (GraphNode.map f)⟩

variable (g : DefinitionGraph α)

theorem node?_map (id : Nat) : (g.map f).node? id = (g.node? id).map (GraphNode.map f) :=
  List.getElem?_map

theorem any_requested_map (id : Nat) :
    ((g.map f).node? id).any GraphNode.requested = (g.node? id).any GraphNode.requested := by
  rw [node?_map, Option.any_map]
  rfl

theorem requested_map : (g.map f).requested = g.requested := by
  unfold requested
  simp only [any_requested_map]
  rw [map, List.length_map]

theorem dependencies_map (id : Nat) : (g.map f).dependencies id = g.dependencies id := by
  rw [dependencies, node?_map, Option.map_map]
  rfl

theorem requestedDependencies_map :
    (g.map f).requestedDependencies = g.requestedDependencies := by
  funext id
  simp only [requestedDependencies, dependencies_map, any_requested_map]

theorem file_map (id : Nat) : (g.map f).file id = g.file id := by
  rw [file, node?_map, Option.map_map]
  rfl

theorem dataset?_map (id : Nat) : (g.map f).dataset? id = g.dataset? id := by
  rw [dataset?, node?_map, Option.map_map]
  rfl

theorem order_map : (g.map f).order = g.order := by
  rw [order, order, requestedDependencies_map, requested_map, funext (file_map f g)]

theorem datasets_map (ids : List Nat) : (g.map f).datasets ids = g.datasets ids := by
  rw [datasets, datasets, funext (dependencies_map f g), funext (dataset?_map f g)]

variable {g} {g' : DefinitionGraph α}

/-- Graphs that differ in their contents only have nodes that differ in their contents only. -/
theorem exists_node_of_map_eq (h : g'.map f = g.map f) {id : Nat} {n : GraphNode α}
    (hn : g.node? id = some n) : ∃ content, g'.node? id = some { n with content } := by
  have hnode : (g'.node? id).map (GraphNode.map f) = (g.node? id).map (GraphNode.map f) := by
    rw [← node?_map, h, node?_map]
  rw [hn, Option.map_some] at hnode
  obtain ⟨n', hn', he⟩ := Option.map_eq_some_iff.1 hnode
  obtain ⟨action, content, dependencies, requested⟩ := n'
  rw [GraphNode.map, GraphNode.map, GraphNode.mk.injEq] at he
  obtain ⟨rfl, -, rfl, rfl⟩ := he
  exact ⟨content, hn'⟩

theorem node?_eq_none_of_map_eq (h : g'.map f = g.map f) {id : Nat} (hn : g.node? id = none) :
    g'.node? id = none := by
  have hnode := node?_map f g' id
  rw [h, node?_map, hn] at hnode
  exact Option.map_eq_none_iff.1 hnode.symm

end DefinitionGraph

namespace GraphBuild

variable (loader : Nat → ActionDescriptor → Except ε α)

/-- The graph under construction with other contents. -/
def map (b : GraphBuild α ε) : GraphBuild β ε :=
  ⟨b.nodes.map (GraphNode.map f), b.issues, b.ids, b.failed, b.loads⟩

/-- The loader that gives other contents. -/
def mapLoader (i : Nat) (d : ActionDescriptor) : Except ε β := (loader i d).map f

section Fields

variable (b : GraphBuild α ε)

theorem graph_map : (b.map f).graph = b.graph.map f := rfl

@[simp] theorem nodes_map : (b.map f).nodes = b.nodes.map (GraphNode.map f) := rfl

@[simp] theorem issues_map : (b.map f).issues = b.issues := rfl

@[simp] theorem ids_map : (b.map f).ids = b.ids := rfl

@[simp] theorem failed_map : (b.map f).failed = b.failed := rfl

@[simp] theorem loads_map : (b.map f).loads = b.loads := rfl

end Fields

theorem push_map (b : GraphBuild α ε) (d : ActionDescriptor) (content : α) (requested : Bool) :
    (b.push d content requested).map f = (b.map f).push d (f content) requested := by
  simp only [push, List.length_map, map, List.map_append, List.map_singleton]
  rfl

theorem load_map (requested : Bool) (b : GraphBuild α ε) (d : ActionDescriptor) :
    (b.load loader requested d).map f = (b.map f).load (mapLoader f loader) requested d := by
  unfold load mapLoader
  rw [loads_map]
  cases loader b.loads.length d with
  | ok content => exact push_map f b d content requested
  | error e => rfl

theorem request_map (p : CompiledProject) (b : GraphBuild α ε) (file : String) :
    (b.request p loader file).map f = (b.map f).request p (mapLoader f loader) file := by
  unfold request
  split
  · rfl
  · exact load_map f loader true b _

theorem requests_map (p : CompiledProject) (b : GraphBuild α ε) (files : List String) :
    (files.foldl (request p loader) b).map f =
      files.foldl (request p (mapLoader f loader)) (b.map f) := by
  induction files generalizing b with
  | nil => rfl
  | cons file files ih => rw [List.foldl_cons, List.foldl_cons, ih, request_map]

theorem nodeOf_map (b : GraphBuild α ε) (d : ActionDescriptor) :
    ((b.nodeOf loader d).1.map f, (b.nodeOf loader d).2) =
      (b.map f).nodeOf (mapLoader f loader) d := by
  unfold nodeOf
  rw [← load_map, ids_map, failed_map]
  cases b.ids.lookup d.target.key with
  | some id => rfl
  | none =>
    dsimp only
    split
    · rfl
    · rfl

theorem follow_map (index : TargetIndex) (file : String) (state : GraphBuild α ε × List Nat)
    (t : Target) :
    ((follow index loader file state t).1.map f, (follow index loader file state t).2) =
      follow index (mapLoader f loader) file (state.1.map f, state.2) t := by
  obtain ⟨b, found⟩ := state
  unfold follow
  dsimp only
  cases index.resolve? t with
  | none => rfl
  | some d =>
    dsimp only
    rw [← nodeOf_map]
    rcases b.nodeOf loader d with ⟨b', _ | id⟩
    · rfl
    · rfl

theorem follows_map (index : TargetIndex) (file : String) (targets : List Target)
    (state : GraphBuild α ε × List Nat) :
    ((targets.foldl (follow index loader file) state).1.map f,
        (targets.foldl (follow index loader file) state).2) =
      targets.foldl (follow index (mapLoader f loader) file) (state.1.map f, state.2) := by
  induction targets generalizing state with
  | nil => rfl
  | cons t targets ih => rw [List.foldl_cons, List.foldl_cons, ih, follow_map]

theorem setDependencies_map (b : GraphBuild α ε) (id : Nat) (found : List Nat) :
    map f { b with nodes := b.nodes.modify id fun n => { n with dependencies := found } } =
      { b.map f with
        nodes := (b.map f).nodes.modify id fun n => { n with dependencies := found } } := by
  have hnodes : (b.nodes.modify id fun n => { n with dependencies := found }).map
      (GraphNode.map f) = (b.nodes.map (GraphNode.map f)).modify id fun n =>
        { n with dependencies := found } := by
    refine map_modify ?_ b.nodes id
    exact fun _ => rfl
  rw [map, hnodes]
  rfl

theorem link_map (index : TargetIndex) (b : GraphBuild α ε) (id : Nat) :
    (b.link index loader id).map f = (b.map f).link index (mapLoader f loader) id := by
  unfold link
  rw [nodes_map, List.getElem?_map]
  cases b.nodes[id]? with
  | none => rfl
  | some n =>
    rw [Option.map_some]
    have hfollows := follows_map f loader index n.action.fileName n.action.dependencyTargets (b, [])
    dsimp only [GraphNode.map]
    rw [← hfollows]
    exact setDependencies_map f _ id _

theorem links_map (index : TargetIndex) (b : GraphBuild α ε) (ids : List Nat) :
    (ids.foldl (link index loader) b).map f =
      ids.foldl (link index (mapLoader f loader)) (b.map f) := by
  induction ids generalizing b with
  | nil => rfl
  | cons id ids ih => rw [List.foldl_cons, List.foldl_cons, ih, link_map]

/-- Building the graph with other contents. -/
theorem run_map (p : CompiledProject) (files : List String) :
    (run p files loader).map f = run p files (mapLoader f loader) := by
  unfold run
  dsimp only
  rw [links_map, requests_map, ← List.length_map (GraphNode.map f), ← nodes_map, requests_map]
  rfl

end GraphBuild

end ColumnMetadata
