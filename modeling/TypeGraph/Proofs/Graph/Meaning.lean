import TypeGraph.Operation.Registry
import TypeGraph.Proofs.Graph.Walk
import TypeGraph.Proofs.Graph.Wiring

/-!
# Meaning of graphs

Operations are given a meaning by their type texts, and literals by their values. A graph then says
of each node what its outputs are, by the outputs of the nodes that resolved edges come from. Where
these edges are acyclic, the equations have one solution.
-/

namespace TypeGraph

/-- Values by output slots. A slot that is not there has none. -/
abbrev Outputs (V : Type) :=
  String → Option V

/-- A meaning of type texts and literals. An operation takes the values of its inputs by slot, where
an input that reads an output without a value has none. -/
structure Interpretation (V : Type) where
  operation : (typeText : String) → (inputs : List (String × Option V)) → Outputs V
  literal : Json.Value → V

namespace Graph

variable {V : Type}

/-- The edges of which both ends exist. -/
def resolved (graph : Graph) : List Edge :=
  resolvedEdges graph.nodes graph.edges

/-- The signature of a node: the registered one, or else a stand-in by the edges into the node. -/
def signature (graph : Graph) (registry : Registry) (node : Node) : Signature :=
  registry.resolve node.operation (slotsInto graph.resolved node.id) node.inputValues.keys

/-- What an input slot of a node holds, if anything: the output that the last edge comes from, or
else, if no edge leads to the node and the slot is required, a literal. -/
def input? (graph : Graph) (meaning : Interpretation V) (outputs : String → Outputs V)
    (node : Node) (slot : Slot) : Option (Option V) :=
  match lastEdgeInto? graph.resolved node.id slot.id with
  | some edge => some (outputs edge.source edge.sourceSlot)
  | none =>
    if edgesInto graph.resolved node.id = [] ∧ slot.required then
      some (some (meaning.literal ((node.inputValue? slot.id).getD slot.kind.sample)))
    else none

/-- The inputs of a node by slot. -/
def inputs (graph : Graph) (registry : Registry) (meaning : Interpretation V)
    (outputs : String → Outputs V) (node : Node) : List (String × Option V) :=
  (graph.signature registry node).inputs.filterMap fun slot =>
    (graph.input? meaning outputs node slot).map fun value => (slot.id, value)

/-- The outputs of a node, given those of the nodes in front of it. -/
def outputsOf (graph : Graph) (registry : Registry) (meaning : Interpretation V)
    (outputs : String → Outputs V) (node : Node) : Outputs V :=
  meaning.operation (graph.signature registry node).typeText
    (graph.inputs registry meaning outputs node)

/-- Whether each node has the outputs that the graph says it has. -/
def Denotes (graph : Graph) (registry : Registry) (meaning : Interpretation V)
    (outputs : String → Outputs V) : Prop :=
  ∀ node ∈ graph.nodes, outputs node.id = graph.outputsOf registry meaning outputs node

variable {graph : Graph} {registry : Registry} {meaning : Interpretation V}
  {left right : String → Outputs V} {node : Node}

/-- The outputs of a node depend only on those of the nodes in front of it. -/
theorem outputsOf_congr
    (agree : ∀ source, Leads (links graph.nodes graph.edges) source node.id →
      left source = right source) :
    graph.outputsOf registry meaning left node = graph.outputsOf registry meaning right node := by
  have same : ∀ slot,
      graph.input? meaning left node slot = graph.input? meaning right node slot := by
    intro slot
    rw [input?, input?]
    cases last : lastEdgeInto? graph.resolved node.id slot.id with
    | some edge =>
        obtain ⟨member, leads, _⟩ := lastEdgeInto?_eq_some last
        have link : Leads (links graph.nodes graph.edges) edge.source node.id :=
          mem_links_iff.mpr ⟨edge, member, rfl, leads⟩
        simp only [agree edge.source link]
    | none =>
        rfl
  simp only [outputsOf, inputs, same]

/-- There is at most one solution. -/
theorem Denotes.unique
    (acyclic : Acyclic (links graph.nodes graph.edges))
    (leftDenotes : graph.Denotes registry meaning left)
    (rightDenotes : graph.Denotes registry meaning right) :
    ∀ node ∈ graph.nodes, left node.id = right node.id := by
  have equal : ∀ id, ∀ node ∈ graph.nodes, node.id = id → left id = right id := by
    intro id
    -- The ids in front of an id are ids of nodes, because edges out of nowhere are not resolved.
    induction id using acyclic.wellFounded.induction with
    | h id inner =>
        rintro node member rfl
        rw [leftDenotes node member, rightDenotes node member]
        apply outputsOf_congr
        intro source link
        obtain ⟨edge, resolved, rfl, _⟩ := mem_links_iff.mp link
        obtain ⟨_, present, _⟩ := mem_resolvedEdges.mp resolved
        obtain ⟨earlier, earlierMember, same⟩ := List.mem_map.mp (hasNode_iff.mp present)
        exact inner edge.source link earlier earlierMember same
  exact fun node member => equal node.id node member rfl

theorem node?_of_mem
    (distinct : (graph.nodes.map Node.id).Nodup)
    (member : node ∈ graph.nodes) :
    graph.node? node.id = some node :=
  find?_id_of_mem distinct member

/-- The first node with the id of a node. -/
def firstLike (graph : Graph) (node : Node) : Node :=
  (graph.node? node.id).getD node

theorem node?_eq_firstLike (member : node ∈ graph.nodes) :
    graph.node? node.id = some (graph.firstLike node) := by
  have present : (graph.node? node.id).isSome :=
    List.find?_isSome.mpr ⟨node, member, beq_self_eq_true node.id⟩
  obtain ⟨found, position⟩ := Option.isSome_iff_exists.mp present
  rw [firstLike, position, Option.getD_some]

theorem firstLike_of_mem
    (distinct : (graph.nodes.map Node.id).Nodup)
    (member : node ∈ graph.nodes) :
    graph.firstLike node = node := by
  rw [firstLike, node?_of_mem distinct member, Option.getD_some]

theorem id_firstLike (node : Node) : (graph.firstLike node).id = node.id := by
  rw [firstLike]
  cases found : graph.node? node.id with
  | none =>
      rfl
  | some other =>
      simpa using List.find?_some found

open Classical in
/-- The outputs of an id, given those of the ids in front of it. -/
noncomputable def outputsFrom (graph : Graph) (registry : Registry) (meaning : Interpretation V)
    (id : String)
    (earlier : ∀ source, Leads (links graph.nodes graph.edges) source id → Outputs V) :
    Outputs V :=
  match graph.node? id with
  | some node =>
    graph.outputsOf registry meaning
      (fun source => if link : _ then earlier source link else fun _ => none) node
  | none => fun _ => none

/-- There is a solution: one goes through the ids from front to back. -/
theorem exists_denotes
    (distinct : (graph.nodes.map Node.id).Nodup)
    (acyclic : Acyclic (links graph.nodes graph.edges))
    (registry : Registry) (meaning : Interpretation V) :
    ∃ outputs, graph.Denotes registry meaning outputs := by
  refine ⟨acyclic.wellFounded.fix (graph.outputsFrom registry meaning), fun node member => ?_⟩
  rw [WellFounded.fix_eq, outputsFrom, node?_of_mem distinct member]
  apply outputsOf_congr
  intro source link
  rw [dif_pos link]

end Graph

end TypeGraph
