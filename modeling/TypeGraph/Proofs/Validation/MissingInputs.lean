import TypeGraph.Proofs.Compiler.Plans
import TypeGraph.Proofs.Graph.Meaning

/-!
# Missing inputs

Problems are found by the edges of the whole graph, plans are made by those of one component. They
agree all the same on what a node lacks: a required input is reported missing exactly if the plan of
the node leaves it out.
-/

namespace TypeGraph

/-- The required inputs that a plan leaves out. -/
def NodePlan.unboundInputs (plan : NodePlan) (signature : Signature) : List Slot :=
  signature.requiredInputs.filter fun slot => slot.id ∉ plan.inputs.map Prod.fst

section Nodes

variable {registry : Registry} {node : Node} {signature : Signature}

/-- A required input is bound if an edge leads to it, or if none leads to the node. -/
theorem mem_inputs_plan_iff
    (registered : registry.get? node.operation = some signature)
    {slot : Slot}
    (required : slot ∈ signature.requiredInputs)
    (names : NameTable) (wires : OrderedMap String Endpoint) (isEntry : Bool) :
    slot.id ∈ (node.plan registry names wires isEntry).inputs.map Prod.fst ↔
      isEntry ∨ wires.contains slot.id := by
  obtain ⟨declared, needed⟩ := List.mem_filter.mp required
  rw [← Node.signature_of_registered registered wires] at declared
  constructor
  · intro member
    obtain ⟨⟨id, source⟩, bound, sameSlot⟩ := List.mem_map.mp member
    obtain ⟨other, _, same, found⟩ := Node.mem_inputs_plan.mp bound
    cases wired : wires.get? other.id with
    | some endpoint =>
        refine Or.inr ?_
        rw [← sameSlot, ← same, OrderedMap.contains, wired, Option.isSome_some]
    | none =>
        rw [Node.inputSource?_of_unwired wired] at found
        cases isEntry with
        | true =>
            exact Or.inl rfl
        | false =>
            cases found
  · intro reached
    suffices bound : ∃ source, node.inputSource? names wires isEntry slot = some source by
      obtain ⟨source, found⟩ := bound
      exact List.mem_map.mpr
        ⟨(slot.id, source), Node.mem_inputs_plan.mpr ⟨slot, declared, rfl, found⟩, rfl⟩
    cases wired : wires.get? slot.id with
    | some endpoint =>
        exact ⟨_, Node.inputSource?_of_wired wired⟩
    | none =>
        rcases reached with rfl | contained
        · rw [Node.inputSource?_of_unwired wired, Node.entryLiteral?, if_pos needed]
          exact ⟨_, rfl⟩
        · rw [OrderedMap.contains, wired] at contained
          cases contained

/-- A node without edges into it gets a literal for each required input that has no edge. -/
theorem unboundInputs_of_entry
    (registered : registry.get? node.operation = some signature)
    (names : NameTable) (wires : OrderedMap String Endpoint) :
    (node.plan registry names wires true).unboundInputs signature = [] := by
  apply List.filter_eq_nil_iff.mpr
  intro slot required
  have bound := (mem_inputs_plan_iff registered required names wires true).mpr (Or.inl rfl)
  simpa using bound

theorem missingInputs_eq
    (registered : registry.get? node.operation = some signature)
    (label : String) (names : NameTable) (wires : OrderedMap String Endpoint) (isEntry : Bool) :
    Validation.missingInputs signature label wires isEntry =
      ((node.plan registry names wires isEntry).unboundInputs signature).map fun slot =>
        .missingInput label slot.label := by
  cases isEntry with
  | true =>
      rw [unboundInputs_of_entry registered]
      rfl
  | false =>
      rw [Validation.missingInputs, if_neg Bool.false_ne_true, NodePlan.unboundInputs]
      congr 1
      apply List.filter_congr
      intro slot required
      have bound := mem_inputs_plan_iff registered required names wires false
      simp [bound]

end Nodes

/-! ## Plans of nodes -/

namespace ComponentPlan

/-- Whether a plan has a node with an id. -/
def contains (plan : ComponentPlan) (id : String) : Bool :=
  plan.nodes.any fun nodePlan => nodePlan.id == id

/-- What a plan says of the node at a place of a graph. The nodes of a component keep the order that
they have in the graph. -/
def nodeAt? (plan : ComponentPlan) (graph : Graph) (place : Nat) : Option NodePlan :=
  plan.nodes[((graph.nodes.take place).filter fun node => plan.contains node.id).length]?

end ComponentPlan

theorem Component.contains_plan
    {registry : Registry} {options : Options} {names : NameTable} {place : Nat}
    {component : Component} (id : String) :
    (component.plan registry options names place).contains id = component.contains id := by
  rw [ComponentPlan.contains, Component.plan_nodes, List.any_map]
  rfl

theorem getElem?_filter_take
    {α : Type} (kept : α → Bool) {items : List α} {place : Nat} {item : α}
    (stands : items[place]? = some item)
    (holds : kept item) :
    (items.filter kept)[((items.take place).filter kept).length]? = some item := by
  obtain ⟨inside, rfl⟩ := List.getElem?_eq_some_iff.mp stands
  have split : items = items.take place ++ items[place] :: items.drop (place + 1) := by
    rw [List.getElem_cons_drop, List.take_append_drop]
  conv_lhs => rw [split, List.filter_append, List.filter_cons_of_pos holds]
  simp

namespace Compiler

variable {compiler : Compiler} {graph : Graph} {wish : String}

/-- Each node of a graph has a plan, by the edges of the whole graph. -/
theorem exists_nodeAt?
    (compiler : Compiler) (wish : String)
    {place : Nat} {node : Node}
    (stands : graph.nodes[place]? = some node) :
    ∃ plan ∈ (compiler.compile graph wish).components,
      plan.contains node.id ∧
        plan.nodeAt? graph place =
          some ((Component.whole graph.nodes graph.edges).planNode compiler.registry
            (compiler.names graph wish) node) := by
  have inGraph : node ∈ graph.nodes := List.mem_of_getElem? stands
  have present : hasNode graph.nodes node.id := hasNode_of_mem inGraph
  obtain ⟨component, member, contained⟩ : ∃ component ∈
      connectedComponents graph.nodes graph.edges, component.contains node.id :=
    exists_component present
  have part := isPart_of_mem member
  obtain ⟨index, inside, rfl⟩ := List.mem_iff_getElem.mp member
  refine ⟨_, mem_components_compile.mpr ⟨index, _, List.getElem?_eq_getElem inside, rfl⟩, ?_, ?_⟩
  · rw [Component.contains_plan]
    exact contained
  · have position := getElem?_filter_take
      (fun other => (connectedComponents graph.nodes graph.edges)[index].contains other.id)
      stands contained
    rw [← part.nodes_eq] at position
    simp only [ComponentPlan.nodeAt?, Component.contains_plan, Component.plan_nodes,
      List.getElem?_map]
    rw [position, Option.map_some, part.planNode_eq (List.mem_of_getElem? position)]

/-- What is reported of a node. -/
def nodeProblems (compiler : Compiler) (graph : Graph) (node : Node) : List Problem :=
  Validation.nodeProblems compiler.rules compiler.registry
    (entryNodes graph.nodes graph.resolved) (Wiring.ofEdges graph.resolved) node

/-- What is reported before the node at a place. -/
def problemsBefore (compiler : Compiler) (graph : Graph) (place : Nat) : List Problem :=
  (if hasCycle graph.nodes graph.resolved then [.cycle] else [])
    ++ (graph.nodes.take place).flatMap (compiler.nodeProblems graph)

/-- What is reported after the node at a place. -/
def problemsAfter (compiler : Compiler) (graph : Graph) (place : Nat) : List Problem :=
  (graph.nodes.drop (place + 1)).flatMap (compiler.nodeProblems graph)
    ++ (Validation.crowdedInputs compiler.registry graph graph.resolved
      ++ Validation.missingNodes graph)

theorem problems_eq
    (compiler : Compiler)
    {place : Nat} {node : Node}
    (stands : graph.nodes[place]? = some node) :
    compiler.problems graph =
      compiler.problemsBefore graph place ++ compiler.nodeProblems graph node ++
        compiler.problemsAfter graph place := by
  obtain ⟨inside, rfl⟩ := List.getElem?_eq_some_iff.mp stands
  have split : graph.nodes.flatMap (compiler.nodeProblems graph) =
      (graph.nodes.take place).flatMap (compiler.nodeProblems graph) ++
        (compiler.nodeProblems graph graph.nodes[place] ++
          (graph.nodes.drop (place + 1)).flatMap (compiler.nodeProblems graph)) := by
    rw [← List.flatMap_cons, ← List.flatMap_append, List.getElem_cons_drop,
      List.take_append_drop]
  change _ ++ graph.nodes.flatMap (compiler.nodeProblems graph) ++ _ ++ _ = _
  rw [split, problemsBefore, problemsAfter]
  simp only [List.append_assoc]
  rfl

/-- A node as the rules see it. -/
def nodeContext (graph : Graph) (node : Node) (signature : Signature) : NodeContext :=
  ⟨node, signature, node.displayLabel (some signature),
    (Wiring.ofEdges graph.resolved).into node.id⟩

/-- Whether reports and plans agree on what the node at a place of a graph lacks. -/
structure AgreesAt (compiler : Compiler) (graph : Graph) (place : Nat) (node : Node)
    (signature : Signature) (plan : ComponentPlan) (nodePlan : NodePlan) : Prop where
  contained : plan.contains node.id
  planned : plan.nodeAt? graph place = some nodePlan
  sameId : nodePlan.id = node.id
  /-- Behind the inputs that the plan leaves out, only rules are heard on the node. -/
  reported : compiler.problems graph =
    compiler.problemsBefore graph place ++
      ((nodePlan.unboundInputs signature).map (fun slot =>
          .missingInput (node.displayLabel (some signature)) slot.label) ++
        Validation.ruleProblems compiler.rules (nodeContext graph node signature)) ++
      compiler.problemsAfter graph place
  /-- A node that no edge leads to lacks nothing. -/
  entry : edgesInto graph.resolved node.id = [] → nodePlan.unboundInputs signature = []

/-- Of a node with a registered operation, exactly those required inputs are reported missing that
its plan leaves out, in their order. -/
theorem missing_inputs_agree
    (compiler : Compiler) (graph : Graph) (wish : String)
    {place : Nat} {node : Node} {signature : Signature}
    (stands : graph.nodes[place]? = some node)
    (registered : compiler.registry.get? node.operation = some signature) :
    ∃ plan ∈ (compiler.compile graph wish).components, ∃ nodePlan,
      compiler.AgreesAt graph place node signature plan nodePlan := by
  obtain ⟨plan, member, contained, planned⟩ := exists_nodeAt? compiler wish stands
  refine ⟨plan, member, _, contained, planned, rfl, ?_, ?_⟩
  · rw [problems_eq compiler stands, nodeProblems, Validation.nodeProblems, registered]
    dsimp only
    rw [missingInputs_eq registered _ (compiler.names graph wish)]
    rfl
  · intro unreached
    have entry : hasNode (entryNodes graph.nodes graph.resolved) node.id :=
      (hasNode_entryNodes_iff (List.mem_of_getElem? stands)).mpr unreached
    change (node.plan _ _ _ (hasNode (entryNodes graph.nodes graph.resolved)
      node.id)).unboundInputs signature = []
    rw [entry]
    exact unboundInputs_of_entry registered _ _

/-- An operation that needs two values. -/
def joining : Signature where
  id := "Join"
  name := "Join"
  category := "Text"
  description := ""
  inputs := [⟨"left", "Left", .string, true⟩, ⟨"right", "Right", .string, true⟩]
  outputs := [⟨"out", "Joined", .string, true⟩]
  typeText := "Join"

/-- A cycle between nodes with one id, of which neither gets its right value. -/
def halfJoined : Graph where
  nodes := [.ofOperation "a" "Join", .ofOperation "a" "Join"]
  edges := [(Edge.between "e" "a" "a").withSlots "out" "left"]

theorem missing_inputs_agree_halfJoined :
    ∃ plan ∈ (compile ⟨Registry.empty.register joining, .standard, []⟩ halfJoined "").components,
      ∃ nodePlan,
        AgreesAt ⟨Registry.empty.register joining, .standard, []⟩ halfJoined 1
          (.ofOperation "a" "Join") joining plan nodePlan := by
  have stands : halfJoined.nodes[1]? = some (.ofOperation "a" "Join") := rfl
  have registered : (Registry.empty.register joining).get? "Join" = some joining := rfl
  exact missing_inputs_agree ⟨Registry.empty.register joining, .standard, []⟩ halfJoined ""
    stands registered

end Compiler

end TypeGraph
