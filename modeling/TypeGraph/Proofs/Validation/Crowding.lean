import TypeGraph.Proofs.Compiler.Hygiene
import TypeGraph.Proofs.Validation.MissingInputs
import TypeGraph.Proofs.Validation.Report

/-!
# Inputs with several connections

Problems count the resolved edges into each slot, plans list connections component by component. All
edges into a slot are in one component and keep their order there, so that the reported slots and
numbers are those of the connections, and the last connection is the one that the plan of the node
takes the slot's value from.
-/

namespace TypeGraph

/-! ## Connections into a slot -/

/-- A slot of a node by the node's name. -/
def Endpoint.bound (names : NameTable) (endpoint : Endpoint) : BoundSlot :=
  ⟨names.binding endpoint.node, endpoint.slot⟩

/-- The edges that lead to a slot. -/
def edgesTo (edges : List Edge) (input : Endpoint) : List Edge :=
  edges.filter fun edge => edge.destination == input

namespace Compilation

/-- The connections of all components. -/
def connections (compilation : Compilation) : List Connection :=
  compilation.components.flatMap ComponentPlan.connections

/-- The connections that lead to a slot of a named node, in their order. -/
def connectionsTo (compilation : Compilation) (slot : BoundSlot) : List Connection :=
  compilation.connections.filter fun connection => connection.target == slot

end Compilation

/-- An edge leads to a slot if it leads to the node of the slot and names the slot. -/
theorem edgesTo_eq_filter (edges : List Edge) (input : Endpoint) :
    edgesTo edges input =
      edges.filter fun edge => edge.target == input.node && edge.targetSlot == input.slot := by
  rw [edgesTo]
  congr 1
  funext edge
  rw [Bool.eq_iff_iff, beq_iff_eq, Bool.and_eq_true, beq_iff_eq, beq_iff_eq, Edge.destination]
  cases input
  exact Endpoint.mk.injEq _ _ _ _ ▸ Iff.rfl

theorem getLast?_edgesTo (edges : List Edge) (input : Endpoint) :
    (edgesTo edges input).getLast? = lastEdgeInto? edges input.node input.slot := by
  rw [edgesTo_eq_filter, lastEdgeInto?]

theorem edgesTo_eq_filter_edgesInto (edges : List Edge) (input : Endpoint) :
    edgesTo edges input =
      (edgesInto edges input.node).filter fun edge => edge.targetSlot == input.slot := by
  rw [edgesTo_eq_filter, edgesInto, List.filter_filter]
  simp only [Bool.and_comm]

namespace Compiler

variable {compiler : Compiler} {graph : Graph} {wish : String}

theorem connections_compile (compiler : Compiler) (graph : Graph) (wish : String) :
    (compiler.compile graph wish).connections =
      (connectedComponents graph.nodes graph.edges).flatMap fun component =>
        component.edges.map (Edge.connection (compiler.names graph wish)) := by
  rw [Compilation.connections, components_compile, List.flatMap_def, List.flatMap_def]
  congr 1
  apply List.ext_getElem?
  intro place
  rw [List.getElem?_map, List.getElem?_mapIdx, List.getElem?_map, Option.map_map]
  rfl

theorem bound_injective
    (compiler : Compiler) (wish : String)
    {left right : Endpoint}
    (leftPresent : hasNode graph.nodes left.node)
    (rightPresent : hasNode graph.nodes right.node)
    (same : left.bound (compiler.names graph wish) = right.bound (compiler.names graph wish)) :
    left = right := by
  have sameNode : left.node = right.node :=
    binding_injective compiler wish (hasNode_iff.mp leftPresent) (hasNode_iff.mp rightPresent)
      (congrArg BoundSlot.binding same)
  have sameSlot : left.slot = right.slot := congrArg BoundSlot.slot same
  cases left
  cases right
  exact Endpoint.mk.injEq _ _ _ _ ▸ ⟨sameNode, sameSlot⟩

/-- The connections of a component into a slot come from its edges into the slot. -/
theorem filter_connections
    {component : Component} {input : Endpoint}
    (part : component.IsPart graph.nodes graph.edges)
    (compiler : Compiler) (wish : String)
    (present : hasNode graph.nodes input.node) :
    (component.edges.map (Edge.connection (compiler.names graph wish))).filter
        (fun connection => connection.target == input.bound (compiler.names graph wish)) =
      (edgesTo component.edges input).map (Edge.connection (compiler.names graph wish)) := by
  rw [List.filter_map, edgesTo]
  congr 1
  apply List.filter_congr
  intro edge member
  have targetPresent : hasNode graph.nodes edge.destination.node :=
    (mem_resolvedEdges.mp (part.mem_edges_iff.mp member).1).2.2
  rw [Function.comp_apply, Bool.eq_iff_iff, beq_iff_eq, beq_iff_eq]
  constructor
  · exact bound_injective compiler wish targetPresent present
  · rintro rfl
    rfl

theorem edgesTo_component
    {component : Component} {input : Endpoint}
    (part : component.IsPart graph.nodes graph.edges)
    (contained : component.contains input.node) :
    edgesTo component.edges input = edgesTo graph.resolved input := by
  rw [edgesTo_eq_filter_edgesInto, part.edgesInto_eq contained, ← edgesTo_eq_filter_edgesInto,
    Graph.resolved]

theorem edgesTo_elsewhere
    {component : Component} {input : Endpoint}
    (part : component.IsPart graph.nodes graph.edges)
    (elsewhere : ¬ component.contains input.node) :
    edgesTo component.edges input = [] := by
  apply List.filter_eq_nil_iff.mpr
  intro edge member leads
  have contained := part.contains_target member
  rw [← beq_iff_eq.mp leads] at elsewhere
  exact elsewhere contained

/-- The connections into a slot of a node, in all components together, come from the resolved edges
into the slot, in their order. -/
theorem connectionsTo_compile
    {input : Endpoint}
    (compiler : Compiler) (wish : String)
    (present : hasNode graph.nodes input.node) :
    (compiler.compile graph wish).connectionsTo (input.bound (compiler.names graph wish)) =
      (edgesTo graph.resolved input).map (Edge.connection (compiler.names graph wish)) := by
  rw [Compilation.connectionsTo, connections_compile, List.filter_flatMap]
  have elsewhere : ∀ component ∈ connectedComponents graph.nodes graph.edges,
      ¬ component.contains input.node →
        (component.edges.map (Edge.connection (compiler.names graph wish))).filter
          (fun connection => connection.target == input.bound (compiler.names graph wish)) =
            [] := by
    intro component member outside
    have part := isPart_of_mem member
    rw [filter_connections part compiler wish present, edgesTo_elsewhere part outside,
      List.map_nil]
  obtain ⟨component, member, contained, alone⟩ :=
    exists_component_flatMap_eq graph.edges _ present elsewhere
  have part := isPart_of_mem member
  rw [alone, filter_connections part compiler wish present, edgesTo_component part contained]

end Compiler

/-! ## Reports -/

/-- The slots that resolved edges lead to, in the order of the first edges. -/
def Graph.wiredInputs (graph : Graph) : List Endpoint :=
  (graph.resolved.map Edge.destination).eraseDups

theorem hasNode_of_mem_wiredInputs
    {graph : Graph} {input : Endpoint}
    (member : input ∈ graph.wiredInputs) :
    hasNode graph.nodes input.node := by
  obtain ⟨edge, resolved, rfl⟩ := List.mem_map.mp (List.mem_eraseDups.mp member)
  exact (mem_resolvedEdges.mp resolved).2.2

namespace Validation

theorem keys_fanIn (edges : List Edge) :
    (fanIn edges).keys =
      (edges.map Edge.destination).eraseDups.map fun input => (input.node, input.slot) := by
  have pairs : Function.Injective fun input : Endpoint => (input.node, input.slot) := by
    rintro ⟨leftNode, leftSlot⟩ ⟨rightNode, rightSlot⟩ same
    cases same
    rfl
  have keys : (fanIn edges).keys =
      (edges.map fun edge => (edge.target, edge.targetSlot)).eraseDups :=
    OrderedMap.keys_foldl_insert (fun edge : Edge => (edge.target, edge.targetSlot))
      (fun counts edge => (counts.get? (edge.target, edge.targetSlot)).getD 0 + 1) edges
  rw [keys, ← eraseDups_map pairs, List.map_map]
  rfl

/-- Each slot stands with the number of the edges that lead to it. -/
theorem entries_fanIn (edges : List Edge) :
    (fanIn edges).entries =
      (edges.map Edge.destination).eraseDups.map fun input =>
        ((input.node, input.slot), (edgesTo edges input).length) := by
  have each : ∀ key ∈ (fanIn edges).keys,
      (fanIn edges).get? key = some (edges.countP fun edge => edge.leadsTo key) := by
    intro key member
    obtain ⟨count, found⟩ := Option.isSome_iff_exists.mp
      (((fanIn edges).get?_isSome_iff key).mpr member)
    have counted := get?_fanIn edges key
    rw [found, Option.getD_some] at counted
    rw [found, counted]
  rw [OrderedMap.entries_eq_map each, keys_fanIn, List.map_map]
  apply List.map_congr_left
  intro input _
  have same : (edges.countP fun edge => edge.leadsTo (input.node, input.slot)) =
      (edgesTo edges input).length := by
    rw [edgesTo, ← List.countP_eq_length_filter]
    congr 1
    funext edge
    rw [Bool.eq_iff_iff, Edge.leadsTo, beq_iff_eq, beq_iff_eq, Edge.destination]
    cases input
    simp
  rw [Function.comp_apply, same]

end Validation

namespace Compiler

variable {compiler : Compiler} {graph : Graph} {wish : String}

/-- What is reported in front of the inputs with several connections. -/
def earlierProblems (compiler : Compiler) (graph : Graph) : List Problem :=
  (if hasCycle graph.nodes graph.resolved then [.cycle] else [])
    ++ graph.nodes.flatMap (compiler.nodeProblems graph)

/-- The connections into a slot, in the plans of all components together. -/
def connectionsInto (compiler : Compiler) (graph : Graph) (wish : String) (input : Endpoint) :
    List Connection :=
  (compiler.compile graph wish).connectionsTo (input.bound (compiler.names graph wish))

/-- The slots that several connections lead to, in the order of the first resolved edges. -/
def crowded (compiler : Compiler) (graph : Graph) (wish : String) : List Endpoint :=
  graph.wiredInputs.filter fun input => 2 ≤ (compiler.connectionsInto graph wish input).length

/-- Whether reports of inputs with several connections agree with the plans. -/
structure CrowdingAgrees (compiler : Compiler) (graph : Graph) (wish : String) : Prop where
  /-- Each of these inputs is reported with the number of its connections. -/
  reported : compiler.problems graph =
    compiler.earlierProblems graph ++
      (compiler.crowded graph wish).map (fun input =>
        .crowdedInput input.slot (Validation.labelOf compiler.registry graph input.node)
          (compiler.connectionsInto graph wish input).length) ++
      Validation.missingNodes graph
  /-- No other slot of a named node has several connections. -/
  exact : ∀ slot, 2 ≤ ((compiler.compile graph wish).connectionsTo slot).length ↔
    ∃ input ∈ compiler.crowded graph wish, input.bound (compiler.names graph wish) = slot
  distinct : ((compiler.crowded graph wish).map
    (Endpoint.bound (compiler.names graph wish))).Nodup
  planned : ∀ input ∈ compiler.crowded graph wish,
    ∃ plan ∈ (compiler.compile graph wish).components,
      ∃ nodePlan ∈ plan.nodes, nodePlan.id = input.node
  /-- A declared slot takes its value from the last of the connections, and from nothing else. -/
  used : ∀ input ∈ compiler.crowded graph wish, ∀ node ∈ graph.nodes, node.id = input.node →
    input.slot ∈ (graph.signature compiler.registry node).inputs.map Slot.id →
      ∀ plan ∈ (compiler.compile graph wish).components, ∀ nodePlan ∈ plan.nodes,
        nodePlan.id = input.node →
          ∃ last, (compiler.connectionsInto graph wish input).getLast? = some last ∧
            ∀ source, (input.slot, source) ∈ nodePlan.inputs ↔ source = .output last.source

theorem connectionsInto_eq
    {input : Endpoint}
    (compiler : Compiler) (wish : String)
    (member : input ∈ graph.wiredInputs) :
    compiler.connectionsInto graph wish input =
      (edgesTo graph.resolved input).map (Edge.connection (compiler.names graph wish)) :=
  connectionsTo_compile compiler wish (hasNode_of_mem_wiredInputs member)

theorem crowdedInputs_eq (compiler : Compiler) (graph : Graph) (wish : String) :
    Validation.crowdedInputs compiler.registry graph graph.resolved =
      (compiler.crowded graph wish).map fun input =>
        .crowdedInput input.slot (Validation.labelOf compiler.registry graph input.node)
          (compiler.connectionsInto graph wish input).length := by
  have counted : ∀ input ∈ graph.wiredInputs, (edgesTo graph.resolved input).length =
      (compiler.connectionsInto graph wish input).length := by
    intro input member
    rw [connectionsInto_eq compiler wish member, List.length_map]
  rw [Validation.crowdedInputs, Validation.entries_fanIn, List.filter_map, List.map_map, crowded,
    ← Graph.wiredInputs]
  have kept : (graph.wiredInputs.filter fun input => 2 ≤ (edgesTo graph.resolved input).length) =
      graph.wiredInputs.filter fun input =>
        2 ≤ (compiler.connectionsInto graph wish input).length := by
    apply List.filter_congr
    intro input member
    rw [counted input member]
  rw [← kept]
  apply List.map_congr_left
  intro input member
  rw [← counted input (List.mem_filter.mp member).1]
  rfl

theorem problems_eq_crowded (compiler : Compiler) (graph : Graph) (wish : String) :
    compiler.problems graph =
      compiler.earlierProblems graph ++
        (compiler.crowded graph wish).map (fun input =>
          .crowdedInput input.slot (Validation.labelOf compiler.registry graph input.node)
            (compiler.connectionsInto graph wish input).length) ++
        Validation.missingNodes graph := by
  rw [← crowdedInputs_eq]
  rfl

/-- A connection leads to the slot that a resolved edge leads to. -/
theorem exists_input_of_mem_connections
    {connection : Connection}
    (member : connection ∈ (compiler.compile graph wish).connections) :
    ∃ input ∈ graph.wiredInputs, input.bound (compiler.names graph wish) = connection.target := by
  rw [connections_compile, List.mem_flatMap] at member
  obtain ⟨component, componentMember, listed⟩ := member
  obtain ⟨edge, edgeMember, rfl⟩ := List.mem_map.mp listed
  have resolved : edge ∈ graph.resolved :=
    ((isPart_of_mem componentMember).mem_edges_iff.mp edgeMember).1
  exact ⟨edge.destination, List.mem_eraseDups.mpr (List.mem_map_of_mem resolved), rfl⟩

theorem two_le_connectionsTo_iff (slot : BoundSlot) :
    2 ≤ ((compiler.compile graph wish).connectionsTo slot).length ↔
      ∃ input ∈ compiler.crowded graph wish, input.bound (compiler.names graph wish) = slot := by
  constructor
  · intro several
    have occupied : (compiler.compile graph wish).connectionsTo slot ≠ [] := by
      intro none
      simp [none] at several
    obtain ⟨connection, member⟩ := List.exists_mem_of_ne_nil _ occupied
    obtain ⟨listed, leads⟩ := List.mem_filter.mp member
    obtain ⟨input, wired, same⟩ := exists_input_of_mem_connections listed
    rw [beq_iff_eq.mp leads] at same
    refine ⟨input, List.mem_filter.mpr ⟨wired, ?_⟩, same⟩
    rw [decide_eq_true_iff, connectionsInto, same]
    exact several
  · rintro ⟨input, member, rfl⟩
    exact of_decide_eq_true (List.mem_filter.mp member).2

theorem nodup_bound_crowded (compiler : Compiler) (graph : Graph) (wish : String) :
    ((compiler.crowded graph wish).map (Endpoint.bound (compiler.names graph wish))).Nodup := by
  apply List.Nodup.map_on
  · intro left leftMember right rightMember same
    exact bound_injective compiler wish
      (hasNode_of_mem_wiredInputs (List.mem_filter.mp leftMember).1)
      (hasNode_of_mem_wiredInputs (List.mem_filter.mp rightMember).1) same
  · exact (nodup_eraseDups _).filter _

/-- A wired slot that its operation declares takes its value from the last edge into it. -/
theorem mem_inputs_iff_last
    {node : Node} {input : Endpoint} {edge : Edge}
    (sameNode : node.id = input.node)
    (declared : input.slot ∈ (graph.signature compiler.registry node).inputs.map Slot.id)
    (last : (edgesTo graph.resolved input).getLast? = some edge)
    (names : NameTable) (source : InputSource) :
    (input.slot, source) ∈
        ((Component.whole graph.nodes graph.edges).planNode compiler.registry names node).inputs ↔
      source = .output (edge.connection names).source := by
  have signature : node.signature compiler.registry ((Wiring.ofEdges graph.resolved).into node.id) =
      graph.signature compiler.registry node := by
    rw [Node.signature, Wiring.keys_into_ofEdges, Graph.signature]
  rw [getLast?_edgesTo, ← sameNode] at last
  rw [Component.planNode, Node.mem_inputs_plan]
  change (∃ slot ∈ (node.signature compiler.registry
    ((Wiring.ofEdges graph.resolved).into node.id)).inputs, _) ↔ _
  rw [signature]
  constructor
  · rintro ⟨slot, _, sameSlot, found⟩
    rw [← sameSlot] at last
    rw [Component.whole, ← Graph.resolved, Node.inputSource?_of_edge last, Option.some.injEq]
      at found
    exact found.symm
  · rintro rfl
    obtain ⟨slot, member, sameSlot⟩ := List.mem_map.mp declared
    rw [← sameSlot] at last
    exact ⟨slot, member, sameSlot, Node.inputSource?_of_edge last⟩

/-- Each id of a graph is the id of some planned node. -/
theorem exists_nodePlan
    (compiler : Compiler) (wish : String)
    {id : String}
    (present : hasNode graph.nodes id) :
    ∃ plan ∈ (compiler.compile graph wish).components,
      ∃ nodePlan ∈ plan.nodes, nodePlan.id = id := by
  obtain ⟨component, member, contained⟩ : ∃ component ∈
      connectedComponents graph.nodes graph.edges, component.contains id :=
    exists_component present
  obtain ⟨place, inside, rfl⟩ := List.mem_iff_getElem.mp member
  obtain ⟨node, nodeMember, rfl⟩ := List.mem_map.mp (hasNode_iff.mp contained)
  refine ⟨_, mem_components_compile.mpr ⟨place, _, List.getElem?_eq_getElem inside, rfl⟩,
    _, Component.mem_nodes_plan.mpr ⟨node, nodeMember, rfl⟩, ?_⟩
  exact Component.planNode_id node

/-- Where ids are pairwise distinct, a node's plan is told by its id. -/
theorem eq_planNode_of_id
    (distinct : (graph.nodes.map Node.id).Nodup)
    {node : Node} {plan : ComponentPlan} {nodePlan : NodePlan}
    (inGraph : node ∈ graph.nodes)
    (planned : plan ∈ (compiler.compile graph wish).components)
    (listed : nodePlan ∈ plan.nodes)
    (sameId : nodePlan.id = node.id) :
    nodePlan = (Component.whole graph.nodes graph.edges).planNode compiler.registry
      (compiler.names graph wish) node := by
  obtain ⟨place, component, stands, rfl⟩ := mem_components_compile.mp planned
  obtain ⟨other, otherMember, rfl⟩ := Component.mem_nodes_plan.mp listed
  have part := isPart_of_mem (List.mem_of_getElem? stands)
  rw [Component.planNode_id] at sameId
  have same : other = node :=
    List.inj_on_of_nodup_map distinct (part.mem_nodes_iff.mp otherMember).1 inGraph sameId
  rw [part.planNode_eq otherMember, same]

/-- The inputs that are reported to have several connections are those that the plans connect
several times, and the last connection is the one that is used. -/
theorem crowded_inputs_agree
    (compiler : Compiler) (graph : Graph) (wish : String)
    (distinct : (graph.nodes.map Node.id).Nodup) :
    compiler.CrowdingAgrees graph wish where
  reported := problems_eq_crowded compiler graph wish
  exact := two_le_connectionsTo_iff
  distinct := nodup_bound_crowded compiler graph wish
  planned := by
    intro input member
    exact exists_nodePlan compiler wish (hasNode_of_mem_wiredInputs (List.mem_filter.mp member).1)
  used := by
    intro input member node inGraph sameNode declared plan planned nodePlan listed sameId
    have ⟨wired, several⟩ := List.mem_filter.mp member
    have connections := connectionsInto_eq compiler wish wired
    have occupied : edgesTo graph.resolved input ≠ [] := by
      intro none
      simp [connections, none] at several
    obtain ⟨edge, last⟩ := Option.isSome_iff_exists.mp (List.getLast?_isSome.mpr occupied)
    refine ⟨edge.connection (compiler.names graph wish), ?_, ?_⟩
    · rw [connections, List.getLast?_map, last, Option.map_some]
    · intro source
      rw [eq_planNode_of_id distinct inGraph planned listed (sameId.trans sameNode.symm)]
      exact mem_inputs_iff_last sameNode declared last _ source

/-- Two components whose edges alternate, with default slots told in words and left out, a slot that
nobody declares, and an edge from nowhere. -/
def interleaved : Graph where
  nodes := [.ofOperation "a" "Strings.Trim", .ofOperation "p" "Strings.Trim",
    .ofOperation "b" "Strings.Trim", .ofOperation "q" "Strings.Trim"]
  edges := [.between "e1" "p" "q",
    (Edge.between "e2" "a" "b").withSlots "out" "bogus",
    .between "e3" "a" "b",
    (Edge.between "e4" "p" "q").withSlots "copy" "in",
    .between "e5" "ghost" "b",
    (Edge.between "e6" "b" "b").withSlots "out" "in",
    (Edge.between "e7" "a" "b").withSlots "out" "bogus",
    .between "e8" "p" "q"]

theorem crowded_inputs_agree_interleaved : standard.CrowdingAgrees interleaved "" :=
  crowded_inputs_agree standard interleaved "" (by decide)

example : (standard.problems interleaved).map Problem.message =
    ["Graph contains a cycle. Type-level DAGs must be acyclic.",
      "Input \"in\" on node \"Trim\" has 3 incoming connections; only the last one is used",
      "Input \"bogus\" on node \"Trim\" has 2 incoming connections; only the last one is used",
      "Input \"in\" on node \"Trim\" has 2 incoming connections; only the last one is used",
      "Connection \"e5\" references missing node \"ghost\""] := by
  rfl

end Compiler

end TypeGraph
