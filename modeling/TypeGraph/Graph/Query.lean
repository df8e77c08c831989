import TypeGraph.Graph.Basic

/-!
# Queries on nodes and edges

Questions about a list of nodes and a list of edges, which may be those of a graph or of one of its
components. An edge is resolved when nodes with both of its ids exist; every algorithm on graphs
leaves the other edges aside.
-/

namespace TypeGraph

def hasNode (nodes : List Node) (id : String) : Bool :=
  nodes.any fun node => node.id == id

/-- Whether both ends of an edge exist. -/
def Edge.isResolved (nodes : List Node) (edge : Edge) : Bool :=
  hasNode nodes edge.source && hasNode nodes edge.target

/-- The edges of which both ends exist. -/
def resolvedEdges (nodes : List Node) (edges : List Edge) : List Edge :=
  edges.filter (Edge.isResolved nodes)

/-- The edges of which an end is missing. -/
def danglingEdges (nodes : List Node) (edges : List Edge) : List Edge :=
  edges.filter fun edge => !edge.isResolved nodes

/-- The nodes that no edge leads to. -/
def entryNodes (nodes : List Node) (edges : List Edge) : List Node :=
  nodes.filter fun node => !edges.any fun edge => edge.target == node.id

/-- The nodes that no edge starts from. -/
def terminalNodes (nodes : List Node) (edges : List Edge) : List Node :=
  nodes.filter fun node => !edges.any fun edge => edge.source == node.id

/-- For each target node and each of its slots, where the value comes from. -/
abbrev Wiring :=
  OrderedMap String (OrderedMap String Endpoint)

namespace Wiring

/-- The wires that lead into a node. -/
def into (wiring : Wiring) (id : String) : OrderedMap String Endpoint :=
  (wiring.get? id).getD .empty

/-- The wiring with one more edge, which takes its slot over from an earlier edge. -/
def addEdge (wiring : Wiring) (edge : Edge) : Wiring :=
  wiring.insert edge.target
    ((wiring.into edge.target).insert edge.targetSlot ⟨edge.source, edge.sourceSlot⟩)

/-- The wiring of edges: where several lead to one slot, the last one counts. -/
def ofEdges (edges : List Edge) : Wiring :=
  edges.foldl addEdge .empty

end Wiring

/-! ## Arcs -/

/-- The place of the first node with an id. -/
def positionOf? (nodes : List Node) (id : String) : Option Nat :=
  nodes.findIdx? fun node => node.id == id

/-- The places of an edge's two ends. -/
def Edge.arc? (nodes : List Node) (edge : Edge) : Option (Nat × Nat) :=
  match positionOf? nodes edge.source, positionOf? nodes edge.target with
  | some source, some target => some (source, target)
  | _, _ => none

/-- The places of the ends of all resolved edges. An edge belongs to the first node with its id. -/
def arcs (nodes : List Node) (edges : List Edge) : List (Nat × Nat) :=
  edges.filterMap (Edge.arc? nodes)

/-- The places that arcs lead to from a place, one for each arc. -/
def successors (arcs : List (Nat × Nat)) (place : Nat) : List Nat :=
  (arcs.filter fun arc => arc.1 == place).map Prod.snd

/-- The number of arcs that lead to a place. -/
def arcsInto (arcs : List (Nat × Nat)) (place : Nat) : Nat :=
  arcs.countP fun arc => arc.2 == place

end TypeGraph
