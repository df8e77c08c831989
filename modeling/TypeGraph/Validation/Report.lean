import TypeGraph.Graph.Cycle
import TypeGraph.Operation.Registry
import TypeGraph.Text.Blank
import TypeGraph.Validation.Rule

/-!
# Reports

All problems of a graph: a cycle, then the problems of the nodes in their order, then inputs with
several edges, then edges with an end missing.
-/

namespace TypeGraph

/-- The name of a node in messages: its label, unless that is blank, or the name of its operation,
or its id. -/
def Node.displayLabel (node : Node) (signature : Option Signature) : String :=
  match node.label.filter fun label => !Text.allBlank label with
  | some label => label
  | none => (signature.map Signature.name).getD node.id

namespace Validation

/-- The required inputs of a node that nothing leads to. A node without any edge into it takes
literals. -/
def missingInputs (signature : Signature) (label : String) (wires : OrderedMap String Endpoint)
    (isEntry : Bool) : List Problem :=
  if isEntry then []
  else
    (signature.requiredInputs.filter fun slot => !wires.contains slot.id).map fun slot =>
      .missingInput label slot.label

/-- What the rules of the operation's category find. -/
def ruleProblems (rules : List Rule) (context : NodeContext) : List Problem :=
  (rules.filter fun rule => rule.category == context.signature.category).flatMap fun rule =>
    rule.check context

def nodeProblems (rules : List Rule) (registry : Registry) (entries : List Node) (wiring : Wiring)
    (node : Node) : List Problem :=
  match registry.get? node.operation with
  | none => [.unknownOperation (node.displayLabel none) node.operation]
  | some signature =>
    let label := node.displayLabel (some signature)
    let wires := wiring.into node.id
    missingInputs signature label wires (hasNode entries node.id)
      ++ ruleProblems rules ⟨node, signature, label, wires⟩

/-- How many edges lead to each slot, in the order of the first edges. -/
def fanIn (edges : List Edge) : OrderedMap (String × String) Nat :=
  edges.foldl
    (fun counts edge =>
      let slot := (edge.target, edge.targetSlot)
      counts.insert slot ((counts.get? slot).getD 0 + 1))
    .empty

/-- The name in messages of the first node with an id. -/
def labelOf (registry : Registry) (graph : Graph) (id : String) : String :=
  match graph.node? id with
  | some node => node.displayLabel (registry.get? node.operation)
  | none => id

/-- The slots that several edges lead to. -/
def crowdedInputs (registry : Registry) (graph : Graph) (edges : List Edge) : List Problem :=
  ((fanIn edges).entries.filter fun entry => 2 ≤ entry.2).map fun ((id, slot), count) =>
    .crowdedInput slot (labelOf registry graph id) count

/-- The ends that edges lack. -/
def missingNodes (graph : Graph) : List Problem :=
  (danglingEdges graph.nodes graph.edges).flatMap fun edge =>
    ([edge.source, edge.target].filter fun id => !hasNode graph.nodes id).map fun id =>
      .missingNode edge.id id

def problems (rules : List Rule) (registry : Registry) (graph : Graph) : List Problem :=
  let edges := resolvedEdges graph.nodes graph.edges
  let entries := entryNodes graph.nodes edges
  let wiring := Wiring.ofEdges edges
  (if hasCycle graph.nodes edges then [.cycle] else [])
    ++ graph.nodes.flatMap (nodeProblems rules registry entries wiring)
    ++ crowdedInputs registry graph edges ++ missingNodes graph

end Validation

end TypeGraph
