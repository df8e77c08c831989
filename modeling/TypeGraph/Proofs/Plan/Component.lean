import TypeGraph.Plan.Component
import TypeGraph.Proofs.Graph.Order
import TypeGraph.Proofs.Graph.Wiring

/-!
# Plans of components

The plan of a node depends only on the edges that lead to the node, so that the plans of the
components are those of one plan of the whole graph, divided. Where ids are pairwise distinct, the
steps of a plan are its nodes in topological order.
-/

namespace TypeGraph

namespace Node

variable {registry : Registry} {names : NameTable} {wires : OrderedMap String Endpoint}
  {isEntry : Bool} {node : Node}

theorem signature_of_registered
    {signature : Signature}
    (registered : registry.get? node.operation = some signature)
    (wires : OrderedMap String Endpoint) :
    node.signature registry wires = signature := by
  rw [Node.signature, Registry.resolve, registered]

/-- An input has the source that its slot has, if its slot is one of the signature's. -/
theorem mem_inputs_plan {id : String} {source : InputSource} :
    (id, source) ∈ (node.plan registry names wires isEntry).inputs ↔
      ∃ slot ∈ (node.signature registry wires).inputs,
        slot.id = id ∧ node.inputSource? names wires isEntry slot = some source := by
  change (id, source) ∈ List.filterMap _ _ ↔ _
  simp only [List.mem_filterMap, Option.map_eq_some_iff, Prod.mk.injEq]
  refine exists_congr fun slot => and_congr_right fun _ => ?_
  constructor
  · rintro ⟨_, found, same, rfl⟩
    exact ⟨same, found⟩
  · rintro ⟨same, found⟩
    exact ⟨source, found, same, rfl⟩

theorem inputSource?_of_wired
    {slot : Slot} {source : Endpoint}
    (wired : wires.get? slot.id = some source) :
    node.inputSource? names wires isEntry slot =
      some (.output ⟨names.binding source.node, source.slot⟩) := by
  rw [inputSource?, wired]

theorem inputSource?_of_unwired
    {slot : Slot}
    (unwired : wires.get? slot.id = none) :
    node.inputSource? names wires isEntry slot =
      if isEntry then (node.entryLiteral? slot).map .literal else none := by
  rw [inputSource?, unwired]

/-- The last edge into a slot decides what the slot takes its value from. -/
theorem inputSource?_of_edge
    {edges : List Edge} {slot : Slot} {edge : Edge}
    (last : lastEdgeInto? edges node.id slot.id = some edge) :
    node.inputSource? names ((Wiring.ofEdges edges).into node.id) isEntry slot =
      some (.output ⟨names.binding edge.source, edge.sourceSlot⟩) := by
  have wired : ((Wiring.ofEdges edges).into node.id).get? slot.id = some edge.origin := by
    rw [Wiring.get?_into_ofEdges, last, Option.map_some]
  exact inputSource?_of_wired wired

theorem inputSource?_of_no_edge
    {edges : List Edge} {slot : Slot}
    (last : lastEdgeInto? edges node.id slot.id = none) :
    node.inputSource? names ((Wiring.ofEdges edges).into node.id) isEntry slot =
      if isEntry then (node.entryLiteral? slot).map .literal else none := by
  have unwired : ((Wiring.ofEdges edges).into node.id).get? slot.id = none := by
    rw [Wiring.get?_into_ofEdges, last, Option.map_none]
  exact inputSource?_of_unwired unwired

end Node

namespace Component

/-- The plan of a node by the edges of a component. -/
def planNode (registry : Registry) (names : NameTable) (component : Component) (node : Node) :
    NodePlan :=
  node.plan registry names ((Wiring.ofEdges component.edges).into node.id)
    (hasNode (entryNodes component.nodes component.edges) node.id)

/-- A whole graph as one component, connected or not. -/
def whole (nodes : List Node) (edges : List Edge) : Component :=
  ⟨nodes, resolvedEdges nodes edges⟩

variable {registry : Registry} {options : Options} {names : NameTable} {place : Nat}
  {component : Component}

theorem plan_nodes :
    (component.plan registry options names place).nodes =
      component.nodes.map (component.planNode registry names) :=
  rfl

theorem plan_connections :
    (component.plan registry options names place).connections =
      component.edges.map (Edge.connection names) :=
  rfl

theorem mem_nodes_plan {nodePlan : NodePlan} :
    nodePlan ∈ (component.plan registry options names place).nodes ↔
      ∃ node ∈ component.nodes, component.planNode registry names node = nodePlan := by
  rw [plan_nodes, List.mem_map]

@[simp]
theorem planNode_id (node : Node) : (component.planNode registry names node).id = node.id :=
  rfl

@[simp]
theorem planNode_binding (node : Node) :
    (component.planNode registry names node).binding = names.binding node.id :=
  rfl

/-- The steps are the nodes in topological order, each as the first node with its id. -/
theorem steps_plan_firsts :
    (component.plan registry options names place).steps =
      (topologicalOrder component.nodes component.edges).filterMap fun node =>
        (component.nodes.find? fun other => other.id == node.id).map
          (component.planNode registry names) := by
  change List.filterMap _ component.order = _
  rw [order, List.filterMap_filterMap]
  apply List.filterMap_congr
  intro node _
  rw [List.find?_eq_bind_findIdx?_getElem?, Option.map_bind, positionOf?]
  congr 1
  funext found
  rw [plan_nodes, List.getElem?_map]
  rfl

/-- The steps are the nodes in topological order. -/
theorem steps_plan (distinct : (component.nodes.map Node.id).Nodup) :
    (component.plan registry options names place).steps =
      (topologicalOrder component.nodes component.edges).map
        (component.planNode registry names) := by
  rw [steps_plan_firsts, ← List.filterMap_eq_map']
  apply List.filterMap_congr
  intro node ordered
  rw [find?_id_of_mem distinct (mem_of_mem_topologicalOrder ordered), Option.map_some]

/-- Where resolved edges are acyclic, all nodes are steps. -/
theorem steps_perm
    (distinct : (component.nodes.map Node.id).Nodup)
    (acyclic : Acyclic (links component.nodes component.edges))
    (registry : Registry) (options : Options) (names : NameTable) (place : Nat) :
    (component.plan registry options names place).steps.Perm
      (component.nodes.map (component.planNode registry names)) := by
  rw [steps_plan distinct]
  exact (topologicalOrder_perm acyclic).map _

theorem resultPlace_lt (occupied : component.nodes ≠ []) :
    component.resultPlace < component.nodes.length := by
  have positive : 0 < component.nodes.length := List.length_pos_iff.mpr occupied
  rw [resultPlace]
  split
  · next terminal _ _ =>
    cases found : positionOf? component.nodes terminal.id with
    | some position =>
        exact lt_length_of_positionOf? found
    | none =>
        exact positive
  · cases last : component.order.getLast? with
    | some position =>
        obtain ⟨node, _, found⟩ := List.mem_filterMap.mp (List.mem_of_getLast? last)
        exact lt_length_of_positionOf? found
    | none =>
        exact Nat.sub_lt positive Nat.one_pos

/-- The result is an output of the node at the place of the result. -/
theorem result_plan
    {node : Node}
    (stands : component.nodes[component.resultPlace]? = some node) :
    (component.plan registry options names place).result =
      ⟨names.binding node.id, (component.planNode registry names node).primaryOutput⟩ := by
  have planned : (component.nodes.map (component.planNode registry names))[
      component.resultPlace]? = some (component.planNode registry names node) := by
    rw [List.getElem?_map, stands, Option.map_some]
  unfold planNode at planned
  simp only [plan, planned]
  rfl

/-- An input that reads an output reads the one that the last edge into its slot comes from. -/
theorem output_mem_inputs_planNode
    {node : Node} {slot : String} {source : BoundSlot}
    (member : (slot, .output source) ∈ (component.planNode registry names node).inputs) :
    ∃ edge, lastEdgeInto? component.edges node.id slot = some edge ∧
      source = ⟨names.binding edge.source, edge.sourceSlot⟩ := by
  obtain ⟨declared, _, rfl, found⟩ := Node.mem_inputs_plan.mp member
  cases last : lastEdgeInto? component.edges node.id declared.id with
  | some edge =>
      rw [Node.inputSource?_of_edge last, Option.some.injEq, InputSource.output.injEq] at found
      exact ⟨edge, rfl, found.symm⟩
  | none =>
      rw [Node.inputSource?_of_no_edge last] at found
      split at found
      · obtain ⟨value, _, impossible⟩ := Option.map_eq_some_iff.mp found
        cases impossible
      · cases found

theorem mem_nodes_of_mem_steps
    {plan : ComponentPlan} {step : NodePlan}
    (member : step ∈ plan.steps) :
    step ∈ plan.nodes := by
  obtain ⟨found, _, stands⟩ := List.mem_filterMap.mp member
  exact List.mem_of_getElem? stands

namespace IsPart

variable {nodes : List Node} {edges : List Edge}

/-- The plan of a node is the same by the edges of the whole graph. -/
theorem planNode_eq
    (part : component.IsPart nodes edges)
    {node : Node}
    (member : node ∈ component.nodes) :
    component.planNode registry names node =
      (whole nodes edges).planNode registry names node := by
  rw [planNode, planNode, part.into_eq (contains_of_mem member),
    part.hasNode_entryNodes_eq member]
  rfl

end IsPart

end Component

end TypeGraph
