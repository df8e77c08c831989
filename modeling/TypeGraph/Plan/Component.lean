import TypeGraph.Graph.Component
import TypeGraph.Graph.Order
import TypeGraph.Operation.Registry
import TypeGraph.Options
import TypeGraph.Plan.Names

/-!
# Plans

What is emitted for a component, before it is put into words: for each node its name, its type text
and the sources of its inputs; the order of the steps; the connections; and the result. The
declaration of a component and the list of its steps are both written from its plan.
-/

namespace TypeGraph

/-- A slot of a named node. -/
structure BoundSlot where
  binding : String
  slot : String
deriving DecidableEq, Repr

/-- Where an input takes its value from. -/
inductive InputSource where
  | literal (value : Json.Value)
  | output (source : BoundSlot)

/-- What is emitted for a node. -/
structure NodePlan where
  id : String
  binding : String
  typeText : String
  /-- Whether no edge leads to the node. -/
  isEntry : Bool
  /-- The inputs that have a source, in the order of the signature's slots. -/
  inputs : List (String × InputSource)
  /-- The slot that a result reads. -/
  primaryOutput : String

def NodePlan.literalInputs (plan : NodePlan) : List (String × Json.Value) :=
  plan.inputs.filterMap fun input =>
    match input.2 with
    | .literal value => some (input.1, value)
    | .output _ => none

theorem NodePlan.mem_literalInputs {plan : NodePlan} {slot : String} {value : Json.Value} :
    (slot, value) ∈ plan.literalInputs ↔ (slot, .literal value) ∈ plan.inputs := by
  rw [literalInputs, List.mem_filterMap]
  constructor
  · intro ⟨⟨name, source⟩, present, found⟩
    cases source with
    | literal value =>
        cases found
        exact present
    | output source =>
        cases found
  · intro present
    exact ⟨_, present, rfl⟩

/-- A connection between named nodes. -/
structure Connection where
  source : BoundSlot
  target : BoundSlot
deriving DecidableEq, Repr

/-- What is emitted for a component. -/
structure ComponentPlan where
  /-- The place among the components, from zero on. -/
  place : Nat
  declaredName : String
  resultAlias : String
  nodes : List NodePlan
  /-- The places of the nodes in the order of the steps. -/
  order : List Nat
  connections : List Connection
  result : BoundSlot

namespace ComponentPlan

/-- The nodes in the order of their steps. -/
def steps (plan : ComponentPlan) : List NodePlan :=
  plan.order.filterMap (plan.nodes[·]?)

end ComponentPlan

namespace Node

/-- The signature of a node's operation. -/
def signature (registry : Registry) (wires : OrderedMap String Endpoint) (node : Node) :
    Signature :=
  registry.resolve node.operation wires.keys node.inputValues.keys

/-- The value that a node without incoming edges has in a slot that needs one: its own, or else a
sample. -/
def entryLiteral? (node : Node) (slot : Slot) : Option Json.Value :=
  if slot.required then some ((node.inputValue? slot.id).getD slot.kind.sample) else none

/-- Where a slot of a node takes its value from: an edge, or a literal if no edge leads to the node
at all. -/
def inputSource? (names : NameTable) (wires : OrderedMap String Endpoint) (isEntry : Bool)
    (node : Node) (slot : Slot) : Option InputSource :=
  match wires.get? slot.id with
  | some source => some (.output ⟨names.binding source.node, source.slot⟩)
  | none => if isEntry then (node.entryLiteral? slot).map .literal else none

def plan (registry : Registry) (names : NameTable) (wires : OrderedMap String Endpoint)
    (isEntry : Bool) (node : Node) : NodePlan :=
  let signature := node.signature registry wires
  { id := node.id
    binding := names.binding node.id
    typeText := signature.typeText
    isEntry := isEntry
    inputs := signature.inputs.filterMap fun slot =>
      (node.inputSource? names wires isEntry slot).map fun source => (slot.id, source)
    primaryOutput := signature.primaryOutput }

end Node

/-- The two ends of an edge by name. -/
def Edge.connection (names : NameTable) (edge : Edge) : Connection :=
  ⟨⟨names.binding edge.source, edge.sourceSlot⟩, ⟨names.binding edge.target, edge.targetSlot⟩⟩

namespace Component

/-- The places of the nodes in topological order. A node with the id of an earlier one has that
one's place. -/
def order (component : Component) : List Nat :=
  (topologicalOrder component.nodes component.edges).filterMap fun node =>
    positionOf? component.nodes node.id

/-- The place of the node that the result is read from: the first that no edge starts from, else
the last step, else the last node. -/
def resultPlace (component : Component) : Nat :=
  match terminalNodes component.nodes component.edges with
  | terminal :: _ => (positionOf? component.nodes terminal.id).getD 0
  | [] => component.order.getLast?.getD (component.nodes.length - 1)

def plan (registry : Registry) (options : Options) (names : NameTable) (place : Nat)
    (component : Component) : ComponentPlan :=
  let entries := entryNodes component.nodes component.edges
  let wiring := Wiring.ofEdges component.edges
  let nodes := component.nodes.map fun node =>
    node.plan registry names (wiring.into node.id) (hasNode entries node.id)
  { place := place
    declaredName := options.componentAlias place
    resultAlias := options.componentResultAlias place
    nodes := nodes
    order := component.order
    connections := component.edges.map (Edge.connection names)
    result :=
      match nodes[component.resultPlace]? with
      | some node => ⟨node.binding, node.primaryOutput⟩
      | none => ⟨"", defaultOutput⟩ }

end Component

end TypeGraph
