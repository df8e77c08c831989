import TypeGraph.Graph.Query

/-!
# Components

The parts of a graph between which no edge runs. A depth-first search from a node meets the ids that
resolved edges, followed in either direction, lead to. The next search begins at the first node that
no search has met.
-/

namespace TypeGraph

/-- Nodes that edges connect, regardless of direction, and the edges among them. -/
structure Component where
  nodes : List Node
  edges : List Edge

namespace Component

/-- The number of nodes. -/
def size (component : Component) : Nat :=
  component.nodes.length

/-- Whether there are no nodes. -/
def isEmpty (component : Component) : Bool :=
  component.nodes.isEmpty

def contains (component : Component) (id : String) : Bool :=
  hasNode component.nodes id

end Component

/-- For each id, the ids at the other ends of its edges. -/
abbrev Neighbors :=
  OrderedMap String (List String)

namespace Neighbors

/-- The ids next to an id. -/
def around (neighbors : Neighbors) (id : String) : List String :=
  (neighbors.get? id).getD []

def add (neighbors : Neighbors) (id other : String) : Neighbors :=
  neighbors.insert id (neighbors.around id ++ [other])

/-- The neighbors that edges make of each other's ends, in the order of the edges. -/
def ofEdges (edges : List Edge) : Neighbors :=
  edges.foldl (fun neighbors edge =>
    (neighbors.add edge.source edge.target).add edge.target edge.source) .empty

end Neighbors

/-- The state of a search. -/
structure Exploration where
  /-- The ids that this search or an earlier one has met. -/
  visited : List String
  /-- The ids that this search has left. -/
  members : List String
  /-- The ids that have been met and not left. The first one is left next. -/
  stack : List String
deriving DecidableEq, Repr

namespace Exploration

/-- A search from an id that no earlier one has met. -/
def start (visited : List String) (id : String) : Exploration :=
  ⟨id :: visited, [], [id]⟩

/-- An id that is met for the first time goes on the stack. -/
def meet (search : Exploration) (id : String) : Exploration :=
  if id ∈ search.visited then search
  else { search with visited := id :: search.visited, stack := id :: search.stack }

/-- The id on top of the stack is left along all its edges. -/
def step (neighbors : Neighbors) (search : Exploration) : Exploration :=
  match search.stack with
  | [] => search
  | id :: rest =>
    (neighbors.around id).foldl meet { search with members := id :: search.members, stack := rest }

/-- The state after a number of steps. -/
def after (neighbors : Neighbors) (search : Exploration) : (steps : Nat) → Exploration
  | 0 => search
  | steps + 1 => (after neighbors search steps).step neighbors

end Exploration

/-- The ids that each search meets, where `ids` are gone through for the beginnings of searches. A
search takes `room` steps, one for each id that there is. No id is on the stack twice, so that the
stack is empty by then. -/
def searchedGroups (neighbors : Neighbors) (room : Nat) :
    (visited ids : List String) → List (List String)
  | _, [] => []
  | visited, id :: rest =>
    if id ∈ visited then searchedGroups neighbors room visited rest
    else
      let search := (Exploration.start visited id).after neighbors room
      search.members :: searchedGroups neighbors room search.visited rest

/-- The components of a graph in the order of their first nodes. -/
def connectedComponents (nodes : List Node) (edges : List Edge) : List Component :=
  let resolved := resolvedEdges nodes edges
  let ids := nodes.map Node.id
  (searchedGroups (.ofEdges resolved) ids.length [] ids).map fun members =>
    ⟨nodes.filter fun node => members.contains node.id,
      resolved.filter fun edge => members.contains edge.source⟩

end TypeGraph
