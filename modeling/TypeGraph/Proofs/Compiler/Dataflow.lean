import TypeGraph.Proofs.Compiler.Hygiene
import TypeGraph.Proofs.Graph.Search
import TypeGraph.Proofs.Plan.Run

/-!
# Data flow of compilations

The steps of a compilation give every node of an acyclic graph the outputs that the graph says it
has, whatever its operations mean: component by component, or all of them one after the other.
-/

namespace TypeGraph

theorem map_eq_map_of_forall₂
    {α β γ : Type} {left : α → γ} {right : β → γ} {items : List α} {others : List β}
    (related : List.Forall₂ (fun item other => right other = left item) items others) :
    others.map right = items.map left := by
  induction related with
  | nil =>
      rfl
  | cons same _ inner =>
      rw [List.map_cons, List.map_cons, same, inner]

/-! ## Steps of nodes -/

section Steps

variable {V : Type} {graph : Graph} {registry : Registry} {names : NameTable}
  {meaning : Interpretation V} {outputs : String → Outputs V}

/-- What is emitted for a node of a graph. -/
abbrev Graph.step (graph : Graph) (registry : Registry) (names : NameTable) (node : Node) :
    NodePlan :=
  (Component.whole graph.nodes graph.edges).planNode registry names node

theorem signature_step (graph : Graph) (registry : Registry) (node : Node) :
    node.signature registry ((Wiring.ofEdges graph.resolved).into node.id) =
      graph.signature registry node := by
  rw [Node.signature, Wiring.keys_into_ofEdges, Graph.signature]

theorem inputs_step (graph : Graph) (registry : Registry) (names : NameTable) (node : Node) :
    (graph.step registry names node).inputs =
      (graph.signature registry node).inputs.filterMap fun slot =>
        (node.inputSource? names ((Wiring.ofEdges graph.resolved).into node.id)
          (hasNode (entryNodes graph.nodes graph.resolved) node.id) slot).map
          fun source => (slot.id, source) := by
  rw [← signature_step]
  rfl

/-- Where all nodes that edges lead from have been run, the inputs that a step reads are those that
the graph says its node has. -/
theorem mapM_readInput
    (meaning : Interpretation V)
    {environment : Environment V} {before : List Node} {node : Node}
    (member : node ∈ graph.nodes)
    (holds : environment.Holds outputs (before.map (graph.step registry names)))
    (earlier : ∀ edge ∈ graph.resolved, edge.target = node.id →
      ∃ source ∈ before, source.id = edge.source) :
    (graph.step registry names node).inputs.mapM (readInput meaning environment) =
      .ok (graph.inputs registry meaning outputs node) := by
  rw [inputs_step, Graph.inputs]
  apply mapM_filterMap_of_rel
  intro slot _
  cases last : lastEdgeInto? graph.resolved node.id slot.id with
  | some edge =>
      obtain ⟨resolved, leads, _⟩ := lastEdgeInto?_eq_some last
      obtain ⟨source, sourceBefore, same⟩ := earlier edge resolved leads
      have stored : environment.get? (names.binding edge.source) = some (outputs edge.source) := by
        rw [← same]
        exact holds.values _ (List.mem_map_of_mem sourceBefore)
      rw [Node.inputSource?_of_edge last, Graph.input?, last]
      refine Option.Rel.some ?_
      simp only [readInput, InputSource.value, stored]
      rfl
  | none =>
      rw [Node.inputSource?_of_no_edge last, Graph.input?, last]
      have entry : hasNode (entryNodes graph.nodes graph.resolved) node.id ↔
          edgesInto graph.resolved node.id = [] := hasNode_entryNodes_iff member
      by_cases unreached : edgesInto graph.resolved node.id = []
      · rw [if_pos (entry.mpr unreached), Node.entryLiteral?]
        by_cases required : slot.required
        · simp only [unreached, required]
          exact Option.Rel.some rfl
        · simp only [unreached, required]
          exact Option.Rel.none
      · rw [if_neg fun isEntry => unreached (entry.mp isEntry)]
        simp only [unreached]
        exact Option.Rel.none

/-- Nodes in an order that follows the edges can be run one after the other. -/
theorem runSteps_of_follows
    (denotes : graph.Denotes registry meaning outputs)
    {nodes : List Node}
    (follows : Follows graph.resolved nodes)
    (inGraph : nodes ⊆ graph.nodes)
    (distinct : (nodes.map fun node => names.binding node.id).Nodup) :
    ∃ environment,
      runSteps meaning (nodes.map (graph.step registry names)) .empty = .ok environment ∧
        environment.Holds outputs (nodes.map (graph.step registry names)) := by
  -- The environment after some nodes is all that the next one depends on.
  induction nodes using List.reverseRecOn with
  | nil =>
      exact ⟨.empty, rfl, rfl, fun step impossible => nomatch impossible⟩
  | append_singleton before node inner =>
      rw [List.map_append, List.map_singleton] at distinct
      obtain ⟨distinctBefore, _, apart⟩ := List.nodup_append.mp distinct
      have inBefore : before ⊆ graph.nodes := fun other member =>
        inGraph (List.mem_append_left _ member)
      have member : node ∈ graph.nodes :=
        inGraph (List.mem_append_right _ List.mem_cons_self)
      obtain ⟨environment, runs, holds⟩ := inner follows.of_append inBefore distinctBefore
      have reads := mapM_readInput meaning member holds (follows before node [] rfl)
      have fresh : (graph.step registry names node).binding ∉
          (before.map (graph.step registry names)).map NodePlan.binding := by
        rw [List.map_map]
        exact fun taken => apart _ taken _ (List.mem_singleton_self _) rfl
      have gives : meaning.operation (graph.step registry names node).typeText
          (graph.inputs registry meaning outputs node) = outputs node.id := by
        rw [denotes node member, Graph.outputsOf, ← signature_step]
        rfl
      obtain ⟨later, steps, laterHolds⟩ := holds.run reads fresh gives
      rw [List.map_append, List.map_singleton, runSteps_append_singleton runs]
      exact ⟨later, steps, laterHolds⟩

end Steps

/-! ## Steps of compilations -/

/-- The steps of all components, one component after the other. -/
def Compilation.steps (compilation : Compilation) : List NodePlan :=
  compilation.components.flatMap ComponentPlan.steps

/-- Whether a compilation runs one step for each node of a graph, without fault, and stores the
outputs of all nodes under the names of their steps. -/
structure Compilation.Computes {V : Type} (graph : Graph) (meaning : Interpretation V)
    (outputs : String → Outputs V) (compilation : Compilation) : Prop where
  complete : (compilation.steps.map NodePlan.id).Perm (graph.nodes.map Node.id)
  /-- Each component can be run on its own. -/
  component : ∀ plan ∈ compilation.components, ∃ environment,
    runSteps meaning plan.steps .empty = .ok environment ∧ environment.Holds outputs plan.steps
  /-- All components can be run in one environment. -/
  together : ∃ environment,
    runSteps meaning compilation.steps .empty = .ok environment ∧
      environment.Holds outputs compilation.steps

namespace Compiler

variable {compiler : Compiler} {graph : Graph} {wish : String}

/-- The topological order of a component follows all edges of the graph. -/
theorem follows_topologicalOrder
    (distinct : (graph.nodes.map Node.id).Nodup)
    {component : Component}
    (part : component.IsPart graph.nodes graph.edges) :
    Follows graph.resolved (topologicalOrder component.nodes component.edges) := by
  intro before node after split edge resolved leads
  have ordered : node ∈ topologicalOrder component.nodes component.edges := by
    rw [split]
    exact List.mem_append_right _ List.mem_cons_self
  obtain ⟨place, _, stands⟩ := List.mem_filterMap.mp ordered
  have contained : component.contains node.id :=
    Component.contains_of_mem (List.mem_of_getElem? stands)
  have inside : edge ∈ component.edges := by
    rw [part.mem_edges_iff, part.closed edge resolved, leads]
    exact ⟨resolved, contained⟩
  rw [← part.resolvedEdges_eq] at inside
  exact mem_before_of_edge (part.distinct_ids distinct) split inside leads

/-- The nodes of a graph in the order of the steps of all components. -/
def orderedNodes (graph : Graph) : List Node :=
  (connectedComponents graph.nodes graph.edges).flatMap fun component =>
    topologicalOrder component.nodes component.edges

theorem orderedNodes_perm (acyclic : Acyclic (links graph.nodes graph.edges)) :
    (orderedNodes graph).Perm graph.nodes := by
  refine List.Perm.trans ?_ (flatMap_nodes_perm graph.nodes graph.edges)
  apply List.Perm.flatMap_left
  intro component member
  exact topologicalOrder_perm ((isPart_of_mem member).acyclic_links acyclic)

theorem follows_orderedNodes (distinct : (graph.nodes.map Node.id).Nodup) :
    Follows graph.resolved (orderedNodes graph) :=
  follows_flatMap fun _ member => follows_topologicalOrder distinct (isPart_of_mem member)

/-- The steps of a component are those of the first nodes with the ids of its nodes, by the edges of
the graph. -/
theorem steps_component_firsts
    {component : Component}
    (member : component ∈ connectedComponents graph.nodes graph.edges)
    (registry : Registry) (options : Options) (names : NameTable) (place : Nat) :
    (component.plan registry options names place).steps =
      (topologicalOrder component.nodes component.edges).map fun node =>
        graph.step registry names (graph.firstLike node) := by
  have part := isPart_of_mem member
  rw [Component.steps_plan_firsts, ← List.filterMap_eq_map']
  apply List.filterMap_congr
  intro node ordered
  have inComponent : node ∈ component.nodes := mem_of_mem_topologicalOrder ordered
  have inGraph : node ∈ graph.nodes := (part.mem_nodes_iff.mp inComponent).1
  have first := part.find?_id_eq (Component.contains_of_mem inComponent)
  rw [show (graph.nodes.find? fun other => other.id == node.id) = some (graph.firstLike node) from
    Graph.node?_eq_firstLike inGraph] at first
  rw [first, Option.map_some, part.planNode_eq (List.mem_of_find?_eq_some first)]

theorem steps_compile_firsts (compiler : Compiler) (graph : Graph) (wish : String) :
    (compiler.compile graph wish).steps =
      (orderedNodes graph).map fun node =>
        graph.step compiler.registry (compiler.names graph wish) (graph.firstLike node) := by
  have related : List.Forall₂
      (fun component (plan : ComponentPlan) => plan.steps =
        (topologicalOrder component.nodes component.edges).map fun node =>
          graph.step compiler.registry (compiler.names graph wish) (graph.firstLike node))
      (connectedComponents graph.nodes graph.edges)
      (compiler.compile graph wish).components := by
    rw [components_compile]
    exact forall₂_mapIdx fun component member place =>
      steps_component_firsts member _ _ _ place
  rw [Compilation.steps, List.flatMap_def, map_eq_map_of_forall₂ related, orderedNodes, List.map_flatMap,
    List.flatMap_def]

/-- The steps of a component are those of its nodes by the edges of the graph. -/
theorem steps_component
    (distinct : (graph.nodes.map Node.id).Nodup)
    {component : Component}
    (member : component ∈ connectedComponents graph.nodes graph.edges)
    (registry : Registry) (options : Options) (names : NameTable) (place : Nat) :
    (component.plan registry options names place).steps =
      (topologicalOrder component.nodes component.edges).map (graph.step registry names) := by
  rw [steps_component_firsts member]
  refine List.map_congr_left fun node ordered => ?_
  have inComponent : node ∈ component.nodes := mem_of_mem_topologicalOrder ordered
  rw [Graph.firstLike_of_mem distinct ((isPart_of_mem member).mem_nodes_iff.mp inComponent).1]

theorem steps_compile
    (compiler : Compiler) (wish : String)
    (distinct : (graph.nodes.map Node.id).Nodup) :
    (compiler.compile graph wish).steps =
      (orderedNodes graph).map (graph.step compiler.registry (compiler.names graph wish)) := by
  rw [steps_compile_firsts]
  refine List.map_congr_left fun node ordered => ?_
  obtain ⟨component, member, inOrder⟩ := List.mem_flatMap.mp ordered
  have inComponent : node ∈ component.nodes := mem_of_mem_topologicalOrder inOrder
  rw [Graph.firstLike_of_mem distinct ((isPart_of_mem member).mem_nodes_iff.mp inComponent).1]

theorem nodup_bindings
    (compiler : Compiler) (wish : String)
    {nodes : List Node}
    (distinct : (nodes.map Node.id).Nodup)
    (inGraph : nodes ⊆ graph.nodes) :
    (nodes.map fun node => (compiler.names graph wish).binding node.id).Nodup := by
  have present : nodes.map Node.id ⊆ graph.nodes.map Node.id := List.map_subset Node.id inGraph
  have mapped : ((nodes.map Node.id).map (compiler.names graph wish).binding).Nodup :=
    List.Nodup.map_on (fun left leftMember right rightMember same =>
      binding_injective compiler wish (present leftMember) (present rightMember) same) distinct
  rwa [List.map_map] at mapped

theorem computes_compile
    {V : Type} {meaning : Interpretation V} {outputs : String → Outputs V}
    (distinct : (graph.nodes.map Node.id).Nodup)
    (acyclic : Acyclic (links graph.nodes graph.edges))
    (denotes : graph.Denotes compiler.registry meaning outputs) :
    (compiler.compile graph wish).Computes graph meaning outputs := by
  have ordered := orderedNodes_perm acyclic
  constructor
  · rw [steps_compile compiler wish distinct, List.map_map]
    exact ordered.map Node.id
  · intro plan member
    obtain ⟨place, component, stands, rfl⟩ := mem_components_compile.mp member
    have isComponent := List.mem_of_getElem? stands
    have part := isPart_of_mem isComponent
    have nodes := topologicalOrder_perm (part.acyclic_links acyclic)
    have inGraph : topologicalOrder component.nodes component.edges ⊆ graph.nodes :=
      fun node inOrder => (part.mem_nodes_iff.mp (nodes.subset inOrder)).1
    have distinctIds :
        ((topologicalOrder component.nodes component.edges).map Node.id).Nodup :=
      (nodes.map Node.id).nodup_iff.mpr (part.distinct_ids distinct)
    rw [steps_component distinct isComponent]
    exact runSteps_of_follows denotes (follows_topologicalOrder distinct part) inGraph
      (nodup_bindings compiler wish distinctIds inGraph)
  · have distinctIds : ((orderedNodes graph).map Node.id).Nodup :=
      (ordered.map Node.id).nodup_iff.mpr distinct
    rw [steps_compile compiler wish distinct]
    exact runSteps_of_follows denotes (follows_orderedNodes distinct) ordered.subset
      (nodup_bindings compiler wish distinctIds ordered.subset)

/-- An acyclic graph says of all its nodes what their outputs are, and the steps of its compilation
compute these outputs. -/
theorem compile_preserves_dataflow
    {V : Type} (compiler : Compiler) (graph : Graph) (wish : String) (meaning : Interpretation V)
    (distinct : (graph.nodes.map Node.id).Nodup)
    (acyclic : Acyclic (links graph.nodes graph.edges)) :
    ∃ outputs,
      graph.Denotes compiler.registry meaning outputs ∧
      (∀ other, graph.Denotes compiler.registry meaning other →
        ∀ node ∈ graph.nodes, other node.id = outputs node.id) ∧
      (compiler.compile graph wish).Computes graph meaning outputs := by
  obtain ⟨outputs, denotes⟩ := Graph.exists_denotes distinct acyclic compiler.registry meaning
  refine ⟨outputs, denotes, ?_, computes_compile distinct acyclic denotes⟩
  exact fun other otherDenotes => otherDenotes.unique acyclic denotes

/-- Two edges into one slot, from an operation that is not registered and stands behind. -/
def overtaken : Graph where
  nodes := [.ofOperation "last" "Strings.Trim", .ofOperation "first" "Mystery"]
  edges := [.between "e1" "first" "last",
    (Edge.between "e2" "first" "last").withSlots "other" "in"]

/-- Every output is the number of inputs. -/
def countingInputs : Interpretation Nat where
  operation _ inputs _ := some inputs.length
  literal _ := 0

theorem compile_preserves_dataflow_overtaken :
    (overtaken.nodes.map Node.id).Nodup ∧
      Acyclic (links overtaken.nodes overtaken.edges) ∧
      ∃ outputs,
        overtaken.Denotes standard.registry countingInputs outputs ∧
        (∀ other, overtaken.Denotes standard.registry countingInputs other →
          ∀ node ∈ overtaken.nodes, other node.id = outputs node.id) ∧
        (standard.compile overtaken "").Computes overtaken countingInputs outputs := by
  have distinct : (overtaken.nodes.map Node.id).Nodup := by decide
  have acyclic : Acyclic (links overtaken.nodes overtaken.edges) :=
    acyclic_links_of_hasCycle_eq_false (by decide)
  exact ⟨distinct, acyclic,
    compile_preserves_dataflow standard overtaken "" countingInputs distinct acyclic⟩

end Compiler

end TypeGraph
