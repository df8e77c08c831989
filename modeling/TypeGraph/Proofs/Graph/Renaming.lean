import TypeGraph.Graph.Cycle
import TypeGraph.Plan.Component
import TypeGraph.Proofs.Graph.Order
import TypeGraph.Proofs.Graph.Wiring

/-!
# Renamed ids

Ids are told apart and nothing else is made of them. If an injective function renames the ids of the
nodes and those at the ends of the edges, then all places stay, and whatever is found out about the
graph is found out about the renamed graph under the new ids.
-/

namespace TypeGraph

def Node.rename (rename : String → String) (node : Node) : Node :=
  { node with id := rename node.id }

def Edge.rename (rename : String → String) (edge : Edge) : Edge :=
  { edge with source := rename edge.source, target := rename edge.target }

def Endpoint.rename (rename : String → String) (endpoint : Endpoint) : Endpoint :=
  { endpoint with node := rename endpoint.node }

def Graph.rename (rename : String → String) (graph : Graph) : Graph :=
  ⟨graph.nodes.map (Node.rename rename), graph.edges.map (Edge.rename rename)⟩

def Component.rename (rename : String → String) (component : Component) : Component :=
  ⟨component.nodes.map (Node.rename rename), component.edges.map (Edge.rename rename)⟩

@[simp]
theorem Component.nodes_rename (rename : String → String) (component : Component) :
    (component.rename rename).nodes = component.nodes.map (Node.rename rename) :=
  rfl

@[simp]
theorem Component.edges_rename (rename : String → String) (component : Component) :
    (component.rename rename).edges = component.edges.map (Edge.rename rename) :=
  rfl

section Renaming

variable {rename : String → String}

theorem beq_rename (injective : Function.Injective rename) (left right : String) :
    (rename left == rename right) = (left == right) := by
  rw [Bool.eq_iff_iff, beq_iff_eq, beq_iff_eq]
  exact injective.eq_iff

theorem contains_rename (injective : Function.Injective rename) (ids : List String) (id : String) :
    (ids.map rename).contains (rename id) = ids.contains id := by
  rw [Bool.eq_iff_iff, List.contains_iff_mem, List.contains_iff_mem]
  exact List.mem_map_of_injective injective

/-! ## Nodes and resolved edges -/

theorem map_id_rename (rename : String → String) (nodes : List Node) :
    (nodes.map (Node.rename rename)).map Node.id = (nodes.map Node.id).map rename := by
  rw [List.map_map, List.map_map]
  rfl

theorem hasNode_rename (injective : Function.Injective rename) (nodes : List Node) (id : String) :
    hasNode (nodes.map (Node.rename rename)) (rename id) = hasNode nodes id := by
  rw [Bool.eq_iff_iff, hasNode_iff, hasNode_iff, map_id_rename]
  exact List.mem_map_of_injective injective

theorem resolvedEdges_rename
    (injective : Function.Injective rename) (nodes : List Node) (edges : List Edge) :
    resolvedEdges (nodes.map (Node.rename rename)) (edges.map (Edge.rename rename)) =
      (resolvedEdges nodes edges).map (Edge.rename rename) := by
  rw [resolvedEdges, List.filter_map, resolvedEdges]
  congr 1
  apply List.filter_congr
  intro edge _
  change (hasNode _ (rename edge.source) && hasNode _ (rename edge.target)) = _
  rw [hasNode_rename injective, hasNode_rename injective, Edge.isResolved]

/-- The nodes that no edge touches at one of its ends. -/
theorem untouched_rename
    (injective : Function.Injective rename) (nodes : List Node) (edges : List Edge)
    {endOf : Edge → String}
    (renamed : ∀ edge, endOf (edge.rename rename) = rename (endOf edge)) :
    ((nodes.map (Node.rename rename)).filter fun node =>
        !(edges.map (Edge.rename rename)).any fun edge => endOf edge == node.id) =
      (nodes.filter fun node => !edges.any fun edge => endOf edge == node.id).map
        (Node.rename rename) := by
  rw [List.filter_map]
  congr 1
  apply List.filter_congr
  intro node _
  rw [Function.comp_apply, List.any_map]
  congr 2
  funext edge
  rw [Function.comp_apply, renamed]
  exact beq_rename injective _ _

theorem entryNodes_rename
    (injective : Function.Injective rename) (nodes : List Node) (edges : List Edge) :
    entryNodes (nodes.map (Node.rename rename)) (edges.map (Edge.rename rename)) =
      (entryNodes nodes edges).map (Node.rename rename) :=
  untouched_rename injective nodes edges fun _ => rfl

theorem terminalNodes_rename
    (injective : Function.Injective rename) (nodes : List Node) (edges : List Edge) :
    terminalNodes (nodes.map (Node.rename rename)) (edges.map (Edge.rename rename)) =
      (terminalNodes nodes edges).map (Node.rename rename) :=
  untouched_rename injective nodes edges fun _ => rfl

/-! ## Places -/

theorem positionOf?_rename
    (injective : Function.Injective rename) (nodes : List Node) (id : String) :
    positionOf? (nodes.map (Node.rename rename)) (rename id) = positionOf? nodes id := by
  rw [positionOf?, List.findIdx?_map, positionOf?]
  congr 1
  funext node
  exact beq_rename injective node.id id

/-- Arcs join places, so that they stay as they are. -/
theorem arcs_rename
    (injective : Function.Injective rename) (nodes : List Node) (edges : List Edge) :
    arcs (nodes.map (Node.rename rename)) (edges.map (Edge.rename rename)) = arcs nodes edges := by
  rw [arcs, List.filterMap_map, arcs]
  apply List.filterMap_congr
  intro edge _
  rw [Function.comp_apply, Edge.arc?, Edge.arc?, ← positionOf?_rename injective nodes edge.source,
    ← positionOf?_rename injective nodes edge.target]
  rfl

theorem hasCycle_rename
    (injective : Function.Injective rename) (nodes : List Node) (edges : List Edge) :
    hasCycle (nodes.map (Node.rename rename)) (edges.map (Edge.rename rename)) =
      hasCycle nodes edges := by
  rw [hasCycle, hasCycle, arcs_rename injective, List.length_map]

theorem topologicalOrder_rename
    (injective : Function.Injective rename) (nodes : List Node) (edges : List Edge) :
    topologicalOrder (nodes.map (Node.rename rename)) (edges.map (Edge.rename rename)) =
      (topologicalOrder nodes edges).map (Node.rename rename) := by
  rw [topologicalOrder, arcs_rename injective, List.length_map, topologicalOrder,
    List.map_filterMap]
  apply List.filterMap_congr
  intro place _
  exact List.getElem?_map

/-! ## Components -/

theorem joinGroups_rename
    (injective : Function.Injective rename) (left right : String) (groups : List (List String)) :
    joinGroups (rename left) (rename right) (groups.map (List.map rename)) =
      (joinGroups left right groups).map (List.map rename) := by
  have touches_rename : ∀ group,
      touches (rename left) (rename right) (group.map rename) = touches left right group := by
    intro group
    rw [touches, contains_rename injective, contains_rename injective, touches]
  induction groups with
  | nil =>
      rfl
  | cons group rest inner =>
      rw [List.map_cons]
      by_cases touched : touches left right group
      · rw [joinGroups_of_touches touched,
          joinGroups_of_touches ((touches_rename group).trans touched), List.map_cons,
          List.map_append, List.map_flatten, List.filter_map, List.filter_map]
        simp only [Function.comp_def, touches_rename]
      · have apart : ¬ touches (rename left) (rename right) (group.map rename) := by
          rwa [touches_rename]
        rw [joinGroups_of_not_touches touched, joinGroups_of_not_touches apart, inner,
          List.map_cons]

theorem connectedGroups_rename
    (injective : Function.Injective rename) (ids : List String) (edges : List Edge) :
    connectedGroups (ids.map rename) (edges.map (Edge.rename rename)) =
      (connectedGroups ids edges).map (List.map rename) := by
  have singletons : ((ids.map rename).eraseDups.map fun id => [id]) =
      (ids.eraseDups.map fun id => [id]).map (List.map rename) := by
    rw [eraseDups_map injective, List.map_map, List.map_map]
    rfl
  rw [connectedGroups, connectedGroups, singletons, List.foldl_map]
  exact List.foldl_hom (List.map (List.map rename)) fun groups edge =>
    joinGroups_rename injective edge.source edge.target groups

theorem connectedComponents_rename
    (injective : Function.Injective rename) (nodes : List Node) (edges : List Edge) :
    connectedComponents (nodes.map (Node.rename rename)) (edges.map (Edge.rename rename)) =
      (connectedComponents nodes edges).map (Component.rename rename) := by
  rw [connectedComponents_eq, connectedComponents_eq, idGroups, resolvedEdges_rename injective,
    map_id_rename, connectedGroups_rename injective, List.map_map, List.map_map]
  apply List.map_congr_left
  intro group _
  rw [Function.comp_apply, Function.comp_apply, groupComponent, groupComponent,
    resolvedEdges_rename injective, Component.rename, List.filter_map, List.filter_map]
  congr 2
  · congr 1
    funext node
    exact contains_rename injective group node.id
  · congr 1
    funext edge
    exact contains_rename injective group edge.source

/-! ## Wires -/

theorem lastEdgeInto?_rename
    (injective : Function.Injective rename) (edges : List Edge) (id slot : String) :
    lastEdgeInto? (edges.map (Edge.rename rename)) (rename id) slot =
      (lastEdgeInto? edges id slot).map (Edge.rename rename) := by
  rw [lastEdgeInto?, List.filter_map, List.getLast?_map, lastEdgeInto?]
  congr 3
  funext edge
  change (rename edge.target == rename id && edge.targetSlot == slot) = _
  rw [beq_rename injective]

theorem slotsInto_rename
    (injective : Function.Injective rename) (edges : List Edge) (id : String) :
    slotsInto (edges.map (Edge.rename rename)) (rename id) = slotsInto edges id := by
  have leads : (fun edge : Edge => edge.target == rename id) ∘ Edge.rename rename =
      fun edge => edge.target == id := by
    funext edge
    exact beq_rename injective edge.target id
  rw [slotsInto, edgesInto, List.filter_map, leads, List.map_map, slotsInto, edgesInto]
  rfl

theorem get?_into_rename
    (injective : Function.Injective rename) (edges : List Edge) (id slot : String) :
    ((Wiring.ofEdges (edges.map (Edge.rename rename))).into (rename id)).get? slot =
      (((Wiring.ofEdges edges).into id).get? slot).map (Endpoint.rename rename) := by
  rw [Wiring.get?_into_ofEdges, lastEdgeInto?_rename injective, Wiring.get?_into_ofEdges,
    Option.map_map, Option.map_map]
  rfl

theorem keys_into_rename
    (injective : Function.Injective rename) (edges : List Edge) (id : String) :
    ((Wiring.ofEdges (edges.map (Edge.rename rename))).into (rename id)).keys =
      ((Wiring.ofEdges edges).into id).keys := by
  rw [Wiring.keys_into_ofEdges, slotsInto_rename injective, Wiring.keys_into_ofEdges]

/-! ## Places of a component -/

namespace Component

theorem order_rename (injective : Function.Injective rename) (component : Component) :
    (component.rename rename).order = component.order := by
  rw [order, nodes_rename, edges_rename, topologicalOrder_rename injective, List.filterMap_map,
    order]
  apply List.filterMap_congr
  intro node _
  exact positionOf?_rename injective component.nodes node.id

theorem resultPlace_rename (injective : Function.Injective rename) (component : Component) :
    (component.rename rename).resultPlace = component.resultPlace := by
  rw [resultPlace, resultPlace, nodes_rename, edges_rename, terminalNodes_rename injective,
    order_rename injective, List.length_map]
  cases terminalNodes component.nodes component.edges with
  | nil =>
      rfl
  | cons terminal rest =>
      exact congrArg (Option.getD · 0) (positionOf?_rename injective component.nodes terminal.id)

end Component

end Renaming

end TypeGraph
