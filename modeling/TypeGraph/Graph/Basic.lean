import TypeGraph.Json.Value
import TypeGraph.Operation.Signature

/-!
# Graphs

Nodes that stand for operations, and edges that carry a value from an output slot of one node to an
input slot of another. Ids need not be distinct and edges need not lead anywhere; the functions on
graphs say what they make of that.
-/

namespace TypeGraph

/-- One use of an operation. -/
structure Node where
  id : String
  /-- The id of the operation's signature. -/
  operation : String
  label : Option String
  /-- Values for input slots, for use where no edge leads to the slot. -/
  inputValues : OrderedMap String Json.Value

namespace Node

/-- A node without a label and without values. -/
def ofOperation (id operation : String) : Node :=
  ⟨id, operation, none, .empty⟩

def withLabel (node : Node) (label : String) : Node :=
  { node with label := some label }

def withInputValue (node : Node) (slot : String) (value : Json.Value) : Node :=
  { node with inputValues := node.inputValues.insert slot value }

def inputValue? (node : Node) (slot : String) : Option Json.Value :=
  node.inputValues.get? slot

end Node

/-- A connection between two nodes. -/
structure Edge where
  id : String
  source : String
  sourceHandle : Option String
  target : String
  targetHandle : Option String
deriving DecidableEq

namespace Edge

/-- An edge between the default slots of two nodes. -/
def between (id source target : String) : Edge :=
  ⟨id, source, none, target, none⟩

/-- The edge between other slots of its nodes. -/
def withSlots (edge : Edge) (sourceSlot targetSlot : String) : Edge :=
  { edge with sourceHandle := some sourceSlot, targetHandle := some targetSlot }

/-- The output slot that the value comes from. -/
def sourceSlot (edge : Edge) : String :=
  edge.sourceHandle.getD defaultOutput

/-- The input slot that the value goes to. -/
def targetSlot (edge : Edge) : String :=
  edge.targetHandle.getD defaultInput

end Edge

/-- Nodes and edges, each in the order in which they were drawn. -/
structure Graph where
  nodes : List Node
  edges : List Edge

namespace Graph

/-- The graph without nodes. -/
def empty : Graph :=
  ⟨[], []⟩

instance : Inhabited Graph :=
  ⟨empty⟩

/-- Whether there are no nodes. -/
def isEmpty (graph : Graph) : Bool :=
  graph.nodes.isEmpty

/-- The first node with an id. -/
def node? (graph : Graph) (id : String) : Option Node :=
  graph.nodes.find? fun node => node.id == id

end Graph

/-- A slot of a node. -/
structure Endpoint where
  node : String
  slot : String
deriving DecidableEq, Repr

end TypeGraph
