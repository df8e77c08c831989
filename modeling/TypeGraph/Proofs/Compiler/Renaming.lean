import Mathlib.Data.Set.Function
import TypeGraph.Proofs.Compiler.Hygiene
import TypeGraph.Proofs.Graph.Renaming

/-!
# Compilations of renamed graphs

A compilation does not look into ids. If an injective function renames them, the components, their
order and all that is emitted for them stay the same, but for the ids themselves and for the names
that are made of them; and these names are exchanged one for one, in every place where they occur.
-/

namespace TypeGraph

/-! ## Plans under other names -/

def BoundSlot.rename (image : String → String) (slot : BoundSlot) : BoundSlot :=
  { slot with binding := image slot.binding }

def InputSource.rename (image : String → String) : InputSource → InputSource
  | literal value => literal value
  | output source => output (source.rename image)

def Connection.rename (image : String → String) (connection : Connection) : Connection :=
  ⟨connection.source.rename image, connection.target.rename image⟩

/-- The plan of a node with another id and with other names of nodes. -/
def NodePlan.rename (rename image : String → String) (plan : NodePlan) : NodePlan :=
  { plan with
    id := rename plan.id
    binding := image plan.binding
    inputs := plan.inputs.map fun input => (input.1, input.2.rename image) }

/-- A plan with other ids and other names of nodes, and the same in all else. -/
def ComponentPlan.rename (rename image : String → String) (plan : ComponentPlan) :
    ComponentPlan :=
  { plan with
    nodes := plan.nodes.map (NodePlan.rename rename image)
    connections := plan.connections.map (Connection.rename image)
    result := plan.result.rename image }

namespace Component

variable {nodes : List Node} {edges : List Edge} {component : Component}
  {rename image : String → String} {names others : NameTable}

/-- Whether a function exchanges the names of a component's ids for those of the renamed ids. -/
def Translates (component : Component) (rename image : String → String)
    (names others : NameTable) : Prop :=
  ∀ id, component.contains id → image (names.binding id) = others.binding (rename id)

theorem inputSource?_rename
    (injective : Function.Injective rename)
    (part : component.IsPart nodes edges)
    (translates : component.Translates rename image names others)
    (isEntry : Bool) (node : Node) (slot : Slot) :
    (node.rename rename).inputSource? others
        ((Wiring.ofEdges (component.rename rename).edges).into (rename node.id)) isEntry slot =
      (node.inputSource? names ((Wiring.ofEdges component.edges).into node.id) isEntry slot).map
        (InputSource.rename image) := by
  have renamed := get?_into_rename injective component.edges node.id slot.id
  rw [← edges_rename] at renamed
  cases last : lastEdgeInto? component.edges node.id slot.id with
  | some edge =>
      have wired : ((Wiring.ofEdges component.edges).into node.id).get? slot.id =
          some edge.origin := by
        rw [Wiring.get?_into_ofEdges, last, Option.map_some]
      rw [wired, Option.map_some] at renamed
      rw [Node.inputSource?_of_wired renamed, Node.inputSource?_of_wired wired, Option.map_some]
      have source := translates edge.source (part.contains_source (lastEdgeInto?_eq_some last).1)
      exact congrArg (fun binding => some (InputSource.output ⟨binding, edge.sourceSlot⟩))
        source.symm
  | none =>
      have unwired : ((Wiring.ofEdges component.edges).into node.id).get? slot.id = none := by
        rw [Wiring.get?_into_ofEdges, last, Option.map_none]
      rw [unwired, Option.map_none] at renamed
      rw [Node.inputSource?_of_unwired renamed, Node.inputSource?_of_unwired unwired]
      cases isEntry with
      | false =>
          rfl
      | true =>
          rw [if_pos rfl, if_pos rfl, Option.map_map]
          rfl

theorem planNode_rename
    (injective : Function.Injective rename)
    (part : component.IsPart nodes edges)
    (translates : component.Translates rename image names others)
    {node : Node}
    (member : node ∈ component.nodes)
    (registry : Registry) :
    (component.rename rename).planNode registry others (node.rename rename) =
      (component.planNode registry names node).rename rename image := by
  have entry : hasNode (entryNodes (component.rename rename).nodes (component.rename rename).edges)
      (rename node.id) = hasNode (entryNodes component.nodes component.edges) node.id := by
    rw [nodes_rename, edges_rename, entryNodes_rename injective, hasNode_rename injective]
  have signature : (node.rename rename).signature registry
      ((Wiring.ofEdges (component.rename rename).edges).into (rename node.id)) =
        node.signature registry ((Wiring.ofEdges component.edges).into node.id) := by
    rw [Node.signature, edges_rename, keys_into_rename injective, Node.signature]
    rfl
  have named := translates node.id (contains_of_mem member)
  change (node.rename rename).plan registry others
    ((Wiring.ofEdges (component.rename rename).edges).into (rename node.id))
    (hasNode _ (rename node.id)) = _
  rw [entry, Node.plan, signature, planNode, Node.plan, NodePlan.rename]
  dsimp only
  congr 1
  · exact named.symm
  · rw [List.map_filterMap]
    apply List.filterMap_congr
    intro slot _
    rw [inputSource?_rename injective part translates, Option.map_map, Option.map_map]
    rfl

theorem connection_rename
    (part : component.IsPart nodes edges)
    (translates : component.Translates rename image names others)
    {edge : Edge}
    (member : edge ∈ component.edges) :
    (edge.rename rename).connection others = (edge.connection names).rename image := by
  have source := translates edge.source (part.contains_source member)
  have target := translates edge.target (part.contains_target member)
  rw [Edge.connection, Edge.connection, Connection.rename, BoundSlot.rename, BoundSlot.rename,
    source, target]
  rfl

theorem plan_rename
    (injective : Function.Injective rename)
    (part : component.IsPart nodes edges)
    (occupied : component.nodes ≠ [])
    (translates : component.Translates rename image names others)
    (registry : Registry) (options : Options) (place : Nat) :
    (component.rename rename).plan registry options others place =
      (component.plan registry options names place).rename rename image := by
  have planned : (component.rename rename).nodes.map
      ((component.rename rename).planNode registry others) =
        (component.nodes.map (component.planNode registry names)).map
          (NodePlan.rename rename image) := by
    rw [nodes_rename, List.map_map, List.map_map]
    apply List.map_congr_left
    intro node member
    exact planNode_rename injective part translates member registry
  have connections : (component.rename rename).edges.map (Edge.connection others) =
      (component.edges.map (Edge.connection names)).map (Connection.rename image) := by
    rw [edges_rename, List.map_map, List.map_map]
    apply List.map_congr_left
    intro edge member
    exact connection_rename part translates member
  obtain ⟨node, stands⟩ : ∃ node, component.nodes[component.resultPlace]? = some node :=
    ⟨_, List.getElem?_eq_getElem (resultPlace_lt occupied)⟩
  have renamedStands : (component.rename rename).nodes[(component.rename rename).resultPlace]? =
      some (node.rename rename) := by
    rw [resultPlace_rename injective, nodes_rename, List.getElem?_map, stands, Option.map_some]
  have result : ((component.rename rename).plan registry options others place).result =
      ((component.plan registry options names place).result).rename image := by
    have member := List.mem_of_getElem? stands
    have named := translates node.id (contains_of_mem member)
    rw [result_plan renamedStands, result_plan stands,
      planNode_rename injective part translates member, BoundSlot.rename, named]
    rfl
  have order := order_rename injective component
  -- The plans agree field by field.
  rw [ComponentPlan.rename, plan_nodes, plan_connections, ← result, ← planned, ← connections]
  unfold plan
  rw [order]
  rfl

end Component

/-- The names of the nodes, by components. -/
def Compilation.bindings (compilation : Compilation) : List String :=
  compilation.components.flatMap fun plan => plan.nodes.map NodePlan.binding

namespace Compiler

variable {compiler : Compiler} {graph : Graph} {wish : String} {rename : String → String}

/-! ## Names of one graph for names of the other -/

/-- The name that takes the place of a node's name when the ids are renamed. -/
def exchanged (compiler : Compiler) (graph : Graph) (wish : String) (rename : String → String)
    (name : String) : String :=
  match graph.nodes.find? fun node => (compiler.names graph wish).binding node.id == name with
  | some node => (compiler.names (graph.rename rename) wish).binding (rename node.id)
  | none => name

theorem exchanged_binding
    (compiler : Compiler) (wish : String) (rename : String → String)
    {id : String}
    (present : id ∈ graph.nodes.map Node.id) :
    compiler.exchanged graph wish rename ((compiler.names graph wish).binding id) =
      (compiler.names (graph.rename rename) wish).binding (rename id) := by
  have known : (graph.nodes.find? fun node => (compiler.names graph wish).binding node.id ==
      (compiler.names graph wish).binding id).isSome := by
    obtain ⟨node, member, rfl⟩ := List.mem_map.mp present
    exact List.find?_isSome.mpr ⟨node, member, beq_self_eq_true _⟩
  obtain ⟨node, found⟩ := Option.isSome_iff_exists.mp known
  have sameName : (compiler.names graph wish).binding node.id =
      (compiler.names graph wish).binding id := by
    simpa using List.find?_some found
  have sameId : node.id = id :=
    binding_injective compiler wish (List.mem_map_of_mem (List.mem_of_find?_eq_some found))
      present sameName
  rw [exchanged, found, ← sameId]

theorem exchanged_injective
    (injective : Function.Injective rename)
    {left right : String}
    (leftPresent : left ∈ graph.nodes.map Node.id)
    (rightPresent : right ∈ graph.nodes.map Node.id)
    (same : compiler.exchanged graph wish rename ((compiler.names graph wish).binding left) =
      compiler.exchanged graph wish rename ((compiler.names graph wish).binding right)) :
    left = right := by
  have renamed : ∀ id ∈ graph.nodes.map Node.id,
      rename id ∈ (graph.rename rename).nodes.map Node.id := by
    intro id present
    rw [Graph.rename, map_id_rename]
    exact List.mem_map_of_mem present
  rw [exchanged_binding compiler wish rename leftPresent,
    exchanged_binding compiler wish rename rightPresent] at same
  apply injective
  exact binding_injective compiler wish (renamed left leftPresent) (renamed right rightPresent) same

theorem translates_exchanged
    {component : Component}
    (part : component.IsPart graph.nodes graph.edges)
    (compiler : Compiler) (wish : String) (rename : String → String) :
    component.Translates rename (compiler.exchanged graph wish rename)
      (compiler.names graph wish) (compiler.names (graph.rename rename) wish) := by
  intro id contained
  apply exchanged_binding
  obtain ⟨node, member, rfl⟩ := List.mem_map.mp (hasNode_iff.mp contained)
  exact List.mem_map_of_mem (part.mem_nodes_iff.mp member).1

/-- Each name of a node is the name of an id of the graph. -/
theorem exists_id_of_mem_bindings
    {name : String}
    (member : name ∈ (compiler.compile graph wish).bindings) :
    ∃ id ∈ graph.nodes.map Node.id, (compiler.names graph wish).binding id = name := by
  obtain ⟨plan, planMember, nodeNames⟩ := List.mem_flatMap.mp member
  obtain ⟨nodePlan, nodeMember, rfl⟩ := List.mem_map.mp nodeNames
  obtain ⟨place, component, stands, rfl⟩ := mem_components_compile.mp planMember
  obtain ⟨node, inComponent, rfl⟩ := Component.mem_nodes_plan.mp nodeMember
  have part := isPart_of_mem (List.mem_of_getElem? stands)
  exact ⟨node.id, List.mem_map_of_mem (part.mem_nodes_iff.mp inComponent).1, rfl⟩

/-! ## Compilations -/

theorem imports_rename (compiler : Compiler) (rename : String → String) (nodes : List Node) :
    compiler.imports (nodes.map (Node.rename rename)) = compiler.imports nodes := by
  rw [imports, List.map_map, imports]
  rfl

theorem takenNames_rename
    (injective : Function.Injective rename) (compiler : Compiler) (graph : Graph) :
    compiler.takenNames (graph.rename rename) = compiler.takenNames graph := by
  rw [takenNames, Graph.rename, imports_rename, connectedComponents_rename injective,
    List.length_map, takenNames]

/-- The imports and the name of the whole result do not depend on ids. -/
theorem header_rename
    (injective : Function.Injective rename)
    (compiler : Compiler) (graph : Graph) (wish : String) :
    (compiler.compile (graph.rename rename) wish).imports =
        (compiler.compile graph wish).imports ∧
      (compiler.compile (graph.rename rename) wish).resultAlias =
        (compiler.compile graph wish).resultAlias := by
  by_cases occupied : graph.nodes = []
  · simp [compile, Graph.isEmpty, Graph.rename, occupied]
  · have renamedOccupied : (graph.rename rename).nodes ≠ [] := by
      rwa [Graph.rename, ne_eq, List.map_eq_nil_iff]
    constructor
    · rw [(compile_of_occupied renamedOccupied).1, (compile_of_occupied occupied).1, Graph.rename,
        imports_rename]
    · rw [resultAlias_compile renamedOccupied, resultAlias_compile occupied, resultName,
        takenNames_rename injective, resultName]

theorem components_rename
    (injective : Function.Injective rename)
    (compiler : Compiler) (graph : Graph) (wish : String) :
    (compiler.compile (graph.rename rename) wish).components =
      (compiler.compile graph wish).components.map
        (ComponentPlan.rename rename (compiler.exchanged graph wish rename)) := by
  rw [components_compile, components_compile, Graph.rename, connectedComponents_rename injective,
    ← Graph.rename]
  apply List.ext_getElem?
  intro place
  rw [List.getElem?_mapIdx, List.getElem?_map, List.getElem?_map, List.getElem?_mapIdx]
  cases stands : (connectedComponents graph.nodes graph.edges)[place]? with
  | none =>
      rfl
  | some component =>
      have member := List.mem_of_getElem? stands
      have part := isPart_of_mem member
      rw [Option.map_some, Option.map_some, Option.map_some, Option.map_some,
        Component.plan_rename injective part (nodes_ne_nil_of_mem member)
          (translates_exchanged part compiler wish rename)]

/-- Names of nodes are exchanged one for one. -/
theorem bijOn_exchanged
    (injective : Function.Injective rename)
    (compiler : Compiler) (graph : Graph) (wish : String) :
    Set.BijOn (compiler.exchanged graph wish rename)
      {name | name ∈ (compiler.compile graph wish).bindings}
      {name | name ∈ (compiler.compile (graph.rename rename) wish).bindings} := by
  have renamed : (compiler.compile (graph.rename rename) wish).bindings =
      (compiler.compile graph wish).bindings.map (compiler.exchanged graph wish rename) := by
    rw [Compilation.bindings, components_rename injective, List.flatMap_map, Compilation.bindings,
      List.map_flatMap]
    apply List.flatMap_congr
    intro plan _
    rw [ComponentPlan.rename, List.map_map, List.map_map]
    rfl
  rw [renamed]
  constructor
  · intro name member
    exact List.mem_map_of_mem member
  · constructor
    · intro left leftMember right rightMember same
      obtain ⟨leftId, leftPresent, rfl⟩ := exists_id_of_mem_bindings leftMember
      obtain ⟨rightId, rightPresent, rfl⟩ := exists_id_of_mem_bindings rightMember
      rw [exchanged_injective injective leftPresent rightPresent same]
    · intro name member
      exact List.mem_map.mp member

/-- Ids are opaque. Renamed by an injective function, a graph has the renamed order and components,
and its compilation differs only in the ids and in the names of nodes, which are exchanged one for
one. -/
theorem compile_rename
    (compiler : Compiler) (graph : Graph) (wish : String)
    {rename : String → String} (injective : Function.Injective rename) :
    hasCycle (graph.rename rename).nodes (graph.rename rename).edges =
        hasCycle graph.nodes graph.edges ∧
      topologicalOrder (graph.rename rename).nodes (graph.rename rename).edges =
        (topologicalOrder graph.nodes graph.edges).map (Node.rename rename) ∧
      connectedComponents (graph.rename rename).nodes (graph.rename rename).edges =
        (connectedComponents graph.nodes graph.edges).map (Component.rename rename) ∧
      (compiler.compile (graph.rename rename) wish).imports =
        (compiler.compile graph wish).imports ∧
      (compiler.compile (graph.rename rename) wish).resultAlias =
        (compiler.compile graph wish).resultAlias ∧
      ∃ image : String → String,
        Set.BijOn image
            {name | name ∈ (compiler.compile graph wish).bindings}
            {name | name ∈ (compiler.compile (graph.rename rename) wish).bindings} ∧
          (compiler.compile (graph.rename rename) wish).components =
            (compiler.compile graph wish).components.map (ComponentPlan.rename rename image) := by
  have header := header_rename injective compiler graph wish
  exact ⟨hasCycle_rename injective graph.nodes graph.edges,
    topologicalOrder_rename injective graph.nodes graph.edges,
    connectedComponents_rename injective graph.nodes graph.edges, header.1, header.2,
    compiler.exchanged graph wish rename, bijOn_exchanged injective compiler graph wish,
    components_rename injective compiler graph wish⟩

/-- The characters of an id from the last to the first. -/
def backwards (id : String) : String :=
  String.ofList id.toList.reverse

theorem backwards_injective : Function.Injective backwards := by
  intro left right same
  have characters := String.ofList_injective same
  exact String.toList_inj.mp (List.reverse_injective characters)

/-- Two ids that have one identifier only when they are read backwards, and an edge to nowhere. -/
def mirrored : Graph where
  nodes := [.ofOperation "_a" "Strings.Trim", .ofOperation "a" "Strings.Trim",
    .ofOperation "b" "Unknown"]
  edges := [.between "e1" "_a" "a", .between "e2" "b" "gone", .between "e3" "a" "a"]

theorem compile_rename_mirrored :
    Function.Injective backwards ∧
      hasCycle (mirrored.rename backwards).nodes (mirrored.rename backwards).edges =
        hasCycle mirrored.nodes mirrored.edges ∧
      topologicalOrder (mirrored.rename backwards).nodes (mirrored.rename backwards).edges =
        (topologicalOrder mirrored.nodes mirrored.edges).map (Node.rename backwards) ∧
      connectedComponents (mirrored.rename backwards).nodes (mirrored.rename backwards).edges =
        (connectedComponents mirrored.nodes mirrored.edges).map (Component.rename backwards) ∧
      (standard.compile (mirrored.rename backwards) "").imports =
        (standard.compile mirrored "").imports ∧
      (standard.compile (mirrored.rename backwards) "").resultAlias =
        (standard.compile mirrored "").resultAlias ∧
      ∃ image : String → String,
        Set.BijOn image
            {name | name ∈ (standard.compile mirrored "").bindings}
            {name | name ∈ (standard.compile (mirrored.rename backwards) "").bindings} ∧
          (standard.compile (mirrored.rename backwards) "").components =
            (standard.compile mirrored "").components.map (ComponentPlan.rename backwards image) :=
  ⟨backwards_injective, compile_rename standard mirrored "" backwards_injective⟩

end Compiler

end TypeGraph
