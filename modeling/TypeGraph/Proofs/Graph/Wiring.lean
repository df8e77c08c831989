import TypeGraph.Proofs.Graph.Part

/-!
# Wiring by edges

What feeds a slot is the last edge that leads to it, and the wired slots of a node are those that
edges lead to, in the order of the first edges. The wiring of a component is that of the graph.
-/

namespace TypeGraph

/-- The slot that an edge takes its value from. -/
def Edge.origin (edge : Edge) : Endpoint :=
  ⟨edge.source, edge.sourceSlot⟩

/-- The slot that an edge takes its value to. -/
def Edge.destination (edge : Edge) : Endpoint :=
  ⟨edge.target, edge.targetSlot⟩

/-- The last edge that leads to a slot of a node. -/
def lastEdgeInto? (edges : List Edge) (id slot : String) : Option Edge :=
  (edges.filter fun edge => edge.target == id && edge.targetSlot == slot).getLast?

/-- The slots of a node that edges lead to, in the order of the first edges. -/
def slotsInto (edges : List Edge) (id : String) : List String :=
  ((edgesInto edges id).map Edge.targetSlot).eraseDups

/-- The wires that edges into one node make. -/
def wiresOf (edges : List Edge) : OrderedMap String Endpoint :=
  edges.foldl (fun wires edge => wires.insert edge.targetSlot edge.origin) .empty

theorem edgesInto_append (edges : List Edge) (edge : Edge) (id : String) :
    edgesInto (edges ++ [edge]) id =
      if edge.target = id then edgesInto edges id ++ [edge] else edgesInto edges id := by
  rw [edgesInto, List.filter_append]
  by_cases leads : edge.target = id
  · simp [edgesInto, leads]
  · simp [edgesInto, leads]

theorem lastEdgeInto?_eq_some
    {edges : List Edge} {id slot : String} {edge : Edge}
    (last : lastEdgeInto? edges id slot = some edge) :
    edge ∈ edges ∧ edge.target = id ∧ edge.targetSlot = slot := by
  have member := List.mem_filter.mp (List.mem_of_getLast? last)
  rwa [Bool.and_eq_true, beq_iff_eq, beq_iff_eq] at member

/-! ## Wires as lists of edges -/

theorem wiresOf_append (edges : List Edge) (edge : Edge) :
    wiresOf (edges ++ [edge]) = (wiresOf edges).insert edge.targetSlot edge.origin := by
  simp [wiresOf]

theorem get?_wiresOf (edges : List Edge) (slot : String) :
    (wiresOf edges).get? slot =
      (edges.filter fun edge => edge.targetSlot == slot).getLast?.map Edge.origin := by
  induction edges using List.reverseRecOn with
  | nil =>
      rfl
  | append_singleton edges edge inner =>
      rw [wiresOf_append, OrderedMap.get?_insert, List.filter_append]
      by_cases leads : edge.targetSlot = slot
      · simp [leads]
      · simp [leads, inner]

theorem keys_wiresOf (edges : List Edge) :
    (wiresOf edges).keys = (edges.map Edge.targetSlot).eraseDups :=
  OrderedMap.keys_foldl_insert Edge.targetSlot (fun _ edge => edge.origin) edges

namespace Wiring

theorem into_addEdge (wiring : Wiring) (edge : Edge) (id : String) :
    (wiring.addEdge edge).into id =
      if edge.target = id then (wiring.into id).insert edge.targetSlot edge.origin
      else wiring.into id := by
  by_cases leads : edge.target = id
  · subst leads
    simp [into, addEdge, OrderedMap.get?_insert, Edge.origin]
  · simp [into, addEdge, OrderedMap.get?_insert, leads]

/-- The wires into a node are those of the edges that lead to it. -/
theorem into_ofEdges (edges : List Edge) (id : String) :
    (ofEdges edges).into id = wiresOf (edgesInto edges id) := by
  induction edges using List.reverseRecOn with
  | nil =>
      rfl
  | append_singleton edges edge inner =>
      have unfolded : ofEdges (edges ++ [edge]) = (ofEdges edges).addEdge edge := by
        simp [ofEdges]
      rw [unfolded, into_addEdge, inner, edgesInto_append]
      by_cases leads : edge.target = id
      · rw [if_pos leads, if_pos leads, wiresOf_append]
      · rw [if_neg leads, if_neg leads]

/-- An id has wires if an edge leads to it. -/
theorem get?_ofEdges (edges : List Edge) (id : String) :
    (ofEdges edges).get? id =
      if edgesInto edges id = [] then none else some (wiresOf (edgesInto edges id)) := by
  induction edges using List.reverseRecOn with
  | nil =>
      rfl
  | append_singleton edges edge inner =>
      have unfolded : ofEdges (edges ++ [edge]) = (ofEdges edges).addEdge edge := by
        simp [ofEdges]
      rw [unfolded, addEdge, OrderedMap.get?_insert, edgesInto_append]
      by_cases leads : edge.target = id
      · rw [if_pos leads, if_pos leads, if_neg (by simp), wiresOf_append, leads, into_ofEdges]
        rfl
      · rw [if_neg leads, if_neg leads, inner]

theorem get?_into_ofEdges (edges : List Edge) (id slot : String) :
    ((ofEdges edges).into id).get? slot = (lastEdgeInto? edges id slot).map Edge.origin := by
  rw [into_ofEdges, get?_wiresOf, edgesInto, List.filter_filter, lastEdgeInto?]
  simp only [Bool.and_comm]

theorem keys_into_ofEdges (edges : List Edge) (id : String) :
    ((ofEdges edges).into id).keys = slotsInto edges id := by
  rw [into_ofEdges, keys_wiresOf, slotsInto]

end Wiring

/-! ## Components -/

theorem hasNode_entryNodes_iff
    {nodes : List Node} {edges : List Edge} {node : Node}
    (member : node ∈ nodes) :
    hasNode (entryNodes nodes edges) node.id ↔ edgesInto edges node.id = [] := by
  rw [hasNode_iff, edgesInto, List.filter_eq_nil_iff]
  constructor
  · intro listed
    obtain ⟨other, entry, sameId⟩ := List.mem_map.mp listed
    have unreached := (List.mem_filter.mp entry).2
    rw [sameId, Bool.not_eq_true', List.any_eq_false] at unreached
    exact unreached
  · intro unreached
    apply List.mem_map_of_mem
    apply List.mem_filter.mpr
    rw [Bool.not_eq_true', List.any_eq_false]
    exact ⟨member, unreached⟩

namespace Component.IsPart

variable {nodes : List Node} {edges : List Edge} {component : Component}

/-- A component wires its nodes as the graph does. -/
theorem into_eq
    (part : component.IsPart nodes edges)
    {id : String}
    (contained : component.contains id) :
    (Wiring.ofEdges component.edges).into id =
      (Wiring.ofEdges (resolvedEdges nodes edges)).into id := by
  rw [Wiring.into_ofEdges, Wiring.into_ofEdges, part.edgesInto_eq contained]

/-- A node is an entry of its component exactly if it is one of the graph. -/
theorem hasNode_entryNodes_eq
    (part : component.IsPart nodes edges)
    {node : Node}
    (member : node ∈ component.nodes) :
    hasNode (entryNodes component.nodes component.edges) node.id =
      hasNode (entryNodes nodes (resolvedEdges nodes edges)) node.id := by
  have inGraph : node ∈ nodes := (part.mem_nodes_iff.mp member).1
  rw [Bool.eq_iff_iff, hasNode_entryNodes_iff member, hasNode_entryNodes_iff inGraph,
    part.edgesInto_eq (contains_of_mem member)]

end Component.IsPart

end TypeGraph
