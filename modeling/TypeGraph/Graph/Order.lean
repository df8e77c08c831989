import TypeGraph.Graph.Query

/-!
# Topological order

Nodes in an order in which every resolved edge leads forward. A node waits until all edges into it
have been followed, and nodes that stop waiting together keep their order. Nodes on a cycle, and
those behind one, wait for ever and are left out.
-/

namespace TypeGraph

/-- The state of the sorting. -/
structure Sorting where
  /-- For each place, the number of arcs into it that have not been followed. -/
  waiting : List Nat
  /-- Places that wait for nothing and have not been left. -/
  queue : List Nat
  /-- Places that have been left, in order. -/
  order : List Nat
deriving DecidableEq, Repr

namespace Sorting

/-- The places without arcs into them are ready from the beginning. -/
def start (arcs : List (Nat × Nat)) (count : Nat) : Sorting where
  waiting := (List.range count).map (arcsInto arcs)
  queue := (List.range count).filter fun place => arcsInto arcs place == 0
  order := []

/-- An arc into a place is followed. -/
def arrive (sorting : Sorting) (place : Nat) : Sorting :=
  let left := sorting.waiting.getD place 0 - 1
  { sorting with
    waiting := sorting.waiting.set place left
    queue := if left = 0 then sorting.queue ++ [place] else sorting.queue }

/-- The first place of the queue is left along all its arcs. -/
def step (arcs : List (Nat × Nat)) (sorting : Sorting) : Sorting :=
  match sorting.queue with
  | [] => sorting
  | place :: rest =>
    (successors arcs place).foldl arrive
      { sorting with queue := rest, order := sorting.order ++ [place] }

/-- The state after a number of steps. -/
def after (arcs : List (Nat × Nat)) (count : Nat) : (steps : Nat) → Sorting
  | 0 => start arcs count
  | steps + 1 => (after arcs count steps).step arcs

end Sorting

/-- The nodes in topological order. No place enters the queue twice, so that as many steps as there
are nodes empty it. -/
def topologicalOrder (nodes : List Node) (edges : List Edge) : List Node :=
  (Sorting.after (arcs nodes edges) nodes.length nodes.length).order.filterMap (nodes[·]?)

end TypeGraph
