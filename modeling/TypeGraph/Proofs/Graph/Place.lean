import Mathlib.Data.List.Nodup
import TypeGraph.Graph.Query

/-!
# Places of nodes

An id stands for the first node that has it. Arcs join the places of the two ends of resolved
edges, and where ids are pairwise distinct every node is found at its own place.
-/

namespace TypeGraph

theorem hasNode_iff {nodes : List Node} {id : String} :
    hasNode nodes id ↔ id ∈ nodes.map Node.id := by
  simp only [hasNode, List.any_eq_true, beq_iff_eq, List.mem_map]

theorem hasNode_of_mem {nodes : List Node} {node : Node} (member : node ∈ nodes) :
    hasNode nodes node.id :=
  hasNode_iff.mpr (List.mem_map_of_mem member)

theorem mem_resolvedEdges {nodes : List Node} {edges : List Edge} {edge : Edge} :
    edge ∈ resolvedEdges nodes edges ↔
      edge ∈ edges ∧ hasNode nodes edge.source ∧ hasNode nodes edge.target := by
  simp only [resolvedEdges, Edge.isResolved, List.mem_filter, Bool.and_eq_true]

/-! ## The place of an id -/

/-- At the place of an id stands a node that has it. -/
theorem exists_getElem?_of_positionOf?
    {nodes : List Node} {id : String} {place : Nat}
    (found : positionOf? nodes id = some place) :
    ∃ node, nodes[place]? = some node ∧ node.id = id := by
  obtain ⟨inside, matching, _⟩ := List.findIdx?_eq_some_iff_getElem.mp found
  exact ⟨nodes[place], List.getElem?_eq_getElem inside, beq_iff_eq.mp matching⟩

theorem lt_length_of_positionOf?
    {nodes : List Node} {id : String} {place : Nat}
    (found : positionOf? nodes id = some place) :
    place < nodes.length :=
  (List.findIdx?_eq_some_iff_getElem.mp found).1

theorem exists_positionOf?
    {nodes : List Node} {id : String}
    (present : hasNode nodes id) :
    ∃ place, positionOf? nodes id = some place := by
  cases found : positionOf? nodes id with
  | some place =>
      exact ⟨place, rfl⟩
  | none =>
      obtain ⟨node, member, matching⟩ := List.any_eq_true.mp present
      have unmatched := List.findIdx?_eq_none_iff.mp found node member
      rw [matching] at unmatched
      cases unmatched

theorem hasNode_of_positionOf?
    {nodes : List Node} {id : String} {place : Nat}
    (found : positionOf? nodes id = some place) :
    hasNode nodes id := by
  obtain ⟨node, stands, rfl⟩ := exists_getElem?_of_positionOf? found
  exact hasNode_of_mem (List.mem_of_getElem? stands)

/-- Two nodes with one id stand at one place where ids are pairwise distinct. -/
theorem positionOf?_of_getElem?
    {nodes : List Node} {place : Nat} {node : Node}
    (distinct : (nodes.map Node.id).Nodup)
    (stands : nodes[place]? = some node) :
    positionOf? nodes node.id = some place := by
  have present : hasNode nodes node.id := hasNode_of_mem (List.mem_of_getElem? stands)
  obtain ⟨found, position⟩ := exists_positionOf? present
  obtain ⟨other, otherStands, sameId⟩ := exists_getElem?_of_positionOf? position
  have inside : found < (nodes.map Node.id).length := by
    rw [List.length_map]
    exact lt_length_of_positionOf? position
  have sameImage : (nodes.map Node.id)[found]? = (nodes.map Node.id)[place]? := by
    rw [List.getElem?_map, List.getElem?_map, otherStands, stands, Option.map_some,
      Option.map_some, sameId]
  rw [position, (List.getElem?_inj inside distinct).mp sameImage]

/-- The first node with an id is the only one where ids are pairwise distinct. -/
theorem find?_id_of_mem
    {nodes : List Node} {node : Node}
    (distinct : (nodes.map Node.id).Nodup)
    (member : node ∈ nodes) :
    (nodes.find? fun other => other.id == node.id) = some node := by
  have present : (nodes.find? fun other => other.id == node.id).isSome :=
    List.find?_isSome.mpr ⟨node, member, beq_self_eq_true node.id⟩
  obtain ⟨found, position⟩ := Option.isSome_iff_exists.mp present
  have sameId : found.id = node.id := by
    simpa using List.find?_some position
  rw [position, List.inj_on_of_nodup_map distinct (List.mem_of_find?_eq_some position) member sameId]

/-! ## Arcs -/

theorem Edge.arc?_eq_some_iff {nodes : List Node} {edge : Edge} {source target : Nat} :
    edge.arc? nodes = some (source, target) ↔
      positionOf? nodes edge.source = some source ∧
        positionOf? nodes edge.target = some target := by
  unfold Edge.arc?
  cases positionOf? nodes edge.source with
  | none =>
      simp
  | some left =>
      cases positionOf? nodes edge.target with
      | none =>
          simp
      | some right =>
          simp

theorem mem_arcs_iff {nodes : List Node} {edges : List Edge} {source target : Nat} :
    (source, target) ∈ arcs nodes edges ↔
      ∃ edge ∈ edges,
        positionOf? nodes edge.source = some source ∧
          positionOf? nodes edge.target = some target := by
  simp only [arcs, List.mem_filterMap, Edge.arc?_eq_some_iff]

theorem lt_length_of_mem_arcs
    {nodes : List Node} {edges : List Edge} {source target : Nat}
    (member : (source, target) ∈ arcs nodes edges) :
    source < nodes.length ∧ target < nodes.length := by
  obtain ⟨_, _, sourcePlace, targetPlace⟩ := mem_arcs_iff.mp member
  exact ⟨lt_length_of_positionOf? sourcePlace, lt_length_of_positionOf? targetPlace⟩

theorem isResolved_of_arc?
    {nodes : List Node} {edge : Edge} {arc : Nat × Nat}
    (joined : edge.arc? nodes = some arc) :
    edge.isResolved nodes := by
  obtain ⟨sourceFound, targetFound⟩ := Edge.arc?_eq_some_iff.mp joined
  rw [Edge.isResolved, Bool.and_eq_true]
  exact ⟨hasNode_of_positionOf? sourceFound, hasNode_of_positionOf? targetFound⟩

/-- Only resolved edges have arcs. -/
theorem arcs_eq_filterMap_resolvedEdges (nodes : List Node) (edges : List Edge) :
    arcs nodes edges = (resolvedEdges nodes edges).filterMap (Edge.arc? nodes) := by
  rw [arcs, resolvedEdges, List.filterMap_filter]
  apply List.filterMap_congr
  intro edge _
  split
  · rfl
  · next unresolved =>
    cases joined : edge.arc? nodes with
    | none =>
        rfl
    | some arc =>
        exact absurd (isResolved_of_arc? joined) unresolved

end TypeGraph
