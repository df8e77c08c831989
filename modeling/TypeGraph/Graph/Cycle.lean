import TypeGraph.Graph.Query

/-!
# Cycles

A depth-first search for a closed walk along the edges. The search knows the path to the place that
it is at and the places that it has finished with; to come upon the path again is to have found a
cycle.
-/

namespace TypeGraph

/-- Searches from a place on. The result lists the places finished so far, or is `none` if the
search has come upon its own path. A path never holds a place twice, so that `room`, the number of
places that are not on it yet, bounds the search. -/
def searchFrom (arcs : List (Nat × Nat)) :
    (room : Nat) → (path finished : List Nat) → (place : Nat) → Option (List Nat)
  | 0, path, finished, place =>
    if place ∈ path then none
    else if place ∈ finished then some finished
    else none
  | room + 1, path, finished, place =>
    if place ∈ path then none
    else if place ∈ finished then some finished
    else
      ((successors arcs place).foldlM (searchFrom arcs room (place :: path)) finished).map
        (place :: ·)

/-- Whether a walk along resolved edges leads from some node back to it. -/
def hasCycle (nodes : List Node) (edges : List Edge) : Bool :=
  let search := searchFrom (arcs nodes edges) nodes.length []
  ((List.range nodes.length).foldlM search []).isNone

end TypeGraph
