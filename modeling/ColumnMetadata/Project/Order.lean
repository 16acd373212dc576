/-!
# Dependency order

Putting nodes behind the nodes that they depend on. A node is ready when everything that it depends
on has been visited. Visited are first the nodes that are ready from the start, in their given
order, and then, for each visited node in turn, the nodes that its visit made ready. Nodes on a cycle
and nodes that depend on one are never ready.
-/

namespace ColumnMetadata.Order

/-- The nodes that become ready when `id` is visited as the last of `visited`: they depend on it, and
all that they depend on is visited. -/
def madeReady (dependencies : Nat → List Nat) (nodes visited : List Nat) (id : Nat) : List Nat :=
  nodes.filter fun n =>
    (dependencies n).contains id && (dependencies n).all fun d => visited.contains d

/-- Visits the waiting nodes in turn, and behind them those that become ready. The number bounds the
visits. -/
def visit (dependencies : Nat → List Nat) (nodes : List Nat) :
    Nat → List Nat → List Nat → List Nat
  | 0, _, visited => visited
  | _, [], visited => visited
  | n + 1, id :: waiting, visited =>
    let visited := visited ++ [id]
    visit dependencies nodes n (waiting ++ madeReady dependencies nodes visited id) visited

/-- The nodes that can be visited, in the order of their visits. -/
def visited (dependencies : Nat → List Nat) (nodes : List Nat) : List Nat :=
  visit dependencies nodes nodes.length (nodes.filter fun n => (dependencies n).isEmpty) []

/-- The nodes that cannot be visited. -/
def blocked (dependencies : Nat → List Nat) (nodes : List Nat) : List Nat :=
  nodes.filter fun n => !(visited dependencies nodes).contains n

end ColumnMetadata.Order
