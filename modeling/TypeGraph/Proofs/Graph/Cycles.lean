import TypeGraph.Proofs.Graph.Order
import TypeGraph.Proofs.Graph.Search
import TypeGraph.Proofs.Precedence

/-!
# Cycles and the nodes behind them

The search finds a cycle exactly where resolved edges lead from some id back to it. The topological
order leaves out exactly the nodes that are behind a cycle, so that it is shorter than the list of
nodes exactly where the search finds one.
-/

namespace TypeGraph

variable {nodes : List Node} {edges : List Edge}

/-! ## The length of the order -/

theorem length_topologicalOrder (nodes : List Node) (edges : List Edge) :
    (topologicalOrder nodes edges).length = (placeOrder nodes edges).length := by
  rw [topologicalOrder_eq, List.length_filterMap_eq_countP, List.countP_eq_length]
  intro place member
  rw [List.getElem?_eq_getElem (lt_length_of_mem_placeOrder member), Option.isSome_some]

/-- An order with as many places as there are nodes has all places. -/
theorem mem_placeOrder_of_length_le
    (enough : nodes.length ≤ (placeOrder nodes edges).length)
    {place : Nat}
    (inside : place < nodes.length) :
    place ∈ placeOrder nodes edges := by
  have contained : placeOrder nodes edges ⊆ List.range nodes.length :=
    fun other member => List.mem_range.mpr (lt_length_of_mem_placeOrder member)
  have part := List.subperm_of_subset (placeOrder_nodup nodes edges) contained
  have all := part.perm_of_length_le (by rwa [List.length_range])
  exact all.mem_iff.mpr (List.mem_range.mpr inside)

theorem exists_onCycle_arcs_iff :
    (∃ place, OnCycle (arcs nodes edges) place) ↔ ∃ id, OnCycle (links nodes edges) id := by
  rw [exists_onCycle_iff, exists_onCycle_iff, acyclic_arcs_iff]

theorem length_topologicalOrder_lt_iff :
    (topologicalOrder nodes edges).length < nodes.length ↔
      ∃ place, OnCycle (arcs nodes edges) place := by
  constructor
  · intro shorter
    rw [exists_onCycle_iff]
    intro acyclic
    have all := topologicalOrder_perm (acyclic_arcs_iff.mp acyclic)
    exact absurd all.length_eq (Nat.ne_of_lt shorter)
  · rintro ⟨place, cycle⟩
    have inside : place < nodes.length := by
      obtain ⟨source, arc⟩ := cycle.behindCycle.exists_leads
      exact (lt_length_of_mem_arcs arc).2
    rw [length_topologicalOrder]
    by_contra long
    have listed := mem_placeOrder_of_length_le (Nat.le_of_not_lt long) inside
    exact (mem_placeOrder_iff.mp listed).2 cycle.behindCycle

/-- A cycle is found if and only if resolved edges lead from some id back to it, which is to say
that the arcs between the first nodes with the ids do, and if and only if the topological order
leaves a node out. The search ends by itself: more room changes nothing. -/
theorem hasCycle_exact (nodes : List Node) (edges : List Edge) :
    (∀ room, nodes.length ≤ room →
      ((List.range nodes.length).foldlM (searchFrom (arcs nodes edges) room []) []).isNone =
        hasCycle nodes edges) ∧
      (hasCycle nodes edges ↔ ∃ id, OnCycle (links nodes edges) id) ∧
      (hasCycle nodes edges ↔ ∃ place, OnCycle (arcs nodes edges) place) ∧
      (hasCycle nodes edges ↔ (topologicalOrder nodes edges).length < nodes.length) := by
  have found : hasCycle nodes edges ↔ ∃ id, OnCycle (links nodes edges) id := by
    rw [hasCycle_iff, exists_onCycle_iff]
  refine ⟨fun room enough => ?_, found, ?_, ?_⟩
  · rw [foldlM_searchFrom_of_more_room enough]
    rfl
  · rw [found, exists_onCycle_arcs_iff]
  · rw [found, length_topologicalOrder_lt_iff, exists_onCycle_arcs_iff]

/-! ## Listed nodes -/

theorem exists_place_of_mem_topologicalOrder
    {node : Node}
    (listed : node ∈ topologicalOrder nodes edges) :
    ∃ place ∈ placeOrder nodes edges, nodes[place]? = some node :=
  List.mem_filterMap.mp listed

/-- The order lists the nodes that are not behind a cycle. -/
theorem mem_topologicalOrder_iff
    (distinct : (nodes.map Node.id).Nodup)
    {node : Node} :
    node ∈ topologicalOrder nodes edges ↔
      node ∈ nodes ∧ ¬ BehindCycle (links nodes edges) node.id := by
  constructor
  · intro listed
    obtain ⟨place, ordered, stands⟩ := exists_place_of_mem_topologicalOrder listed
    have found := positionOf?_of_getElem? distinct stands
    rw [← behindCycle_arcs_iff found]
    exact ⟨List.mem_of_getElem? stands, (mem_placeOrder_iff.mp ordered).2⟩
  · rintro ⟨member, free⟩
    obtain ⟨place, inside, rfl⟩ := List.mem_iff_getElem.mp member
    have stands : nodes[place]? = some nodes[place] := List.getElem?_eq_getElem inside
    rw [← behindCycle_arcs_iff (positionOf?_of_getElem? distinct stands)] at free
    exact List.mem_filterMap.mpr ⟨place, mem_placeOrder_iff.mpr ⟨inside, free⟩, stands⟩

theorem nodup_topologicalOrder
    (distinct : (nodes.map Node.id).Nodup) :
    ((topologicalOrder nodes edges).map Node.id).Nodup := by
  rw [topologicalOrder_eq, List.map_filterMap]
  refine (placeOrder_nodup nodes edges).filterMap ?_
  intro first second id firstId secondId
  obtain ⟨firstNode, firstStands, rfl⟩ := Option.map_eq_some_iff.mp firstId
  obtain ⟨secondNode, secondStands, sameId⟩ := Option.map_eq_some_iff.mp secondId
  have firstFound := positionOf?_of_getElem? distinct firstStands
  have secondFound := positionOf?_of_getElem? distinct secondStands
  rw [sameId] at secondFound
  exact Option.some.inj (firstFound.symm.trans secondFound)

/-- An id is behind a cycle if a node on a cycle leads to it. -/
theorem behindCycle_links_iff {id : String} :
    BehindCycle (links nodes edges) id ↔
      ∃ origin ∈ nodes, OnCycle (links nodes edges) origin.id ∧
        Relation.ReflTransGen (Leads (links nodes edges)) origin.id id := by
  constructor
  · rintro ⟨origin, cycle, walk⟩
    obtain ⟨source, link⟩ := cycle.behindCycle.exists_leads
    obtain ⟨edge, resolved, _, rfl⟩ := mem_links_iff.mp link
    have present : hasNode nodes edge.target := (mem_resolvedEdges.mp resolved).2.2
    obtain ⟨node, member, sameId⟩ := List.mem_map.mp (hasNode_iff.mp present)
    rw [← sameId] at cycle walk
    exact ⟨node, member, cycle, walk⟩
  · rintro ⟨origin, _, cycle, walk⟩
    exact ⟨origin.id, cycle, walk⟩

/-- The sources of the edges to a listed node are listed in front of it. -/
theorem precedes_topologicalOrder_of_edge
    (distinct : (nodes.map Node.id).Nodup)
    {edge : Edge} {source target : Node}
    (resolved : edge ∈ resolvedEdges nodes edges)
    (sourceMember : source ∈ nodes)
    (starts : edge.source = source.id)
    (listed : target ∈ topologicalOrder nodes edges)
    (leads : edge.target = target.id) :
    Precedes source target (topologicalOrder nodes edges) := by
  obtain ⟨before, after, split⟩ := List.append_of_mem listed
  obtain ⟨other, otherBefore, sameId⟩ := mem_before_of_edge distinct split resolved leads
  have otherListed : other ∈ topologicalOrder nodes edges := by
    rw [split]
    exact List.mem_append_left _ otherBefore
  have otherMember := mem_of_mem_topologicalOrder otherListed
  have same : other = source :=
    List.inj_on_of_nodup_map distinct otherMember sourceMember (sameId.trans starts)
  rw [split, ← same]
  exact precedes_append otherBefore List.mem_cons_self

/-- Whether an order has all nodes but those behind a cycle, each of them once and behind the nodes
that resolved edges lead to it from. -/
structure IsExactOrder (nodes : List Node) (edges : List Edge) (order : List Node) : Prop where
  distinct : (order.map Node.id).Nodup
  /-- The nodes left out are those that a walk, if only of no edge, leads to from a cycle. -/
  listed : ∀ node, node ∈ order ↔
    node ∈ nodes ∧ ∀ origin ∈ nodes, OnCycle (links nodes edges) origin.id →
      ¬ Relation.ReflTransGen (Leads (links nodes edges)) origin.id node.id
  sequenced : ∀ edge ∈ resolvedEdges nodes edges, ∀ source ∈ nodes, edge.source = source.id →
    ∀ target ∈ order, edge.target = target.id → Precedes source target order

/-- The topological order is exact where ids are pairwise distinct, on graphs with cycles too. -/
theorem topologicalOrder_exact
    {nodes : List Node}
    (distinct : (nodes.map Node.id).Nodup)
    (edges : List Edge) :
    IsExactOrder nodes edges (topologicalOrder nodes edges) where
  distinct := nodup_topologicalOrder distinct
  listed := by
    intro node
    rw [mem_topologicalOrder_iff distinct, behindCycle_links_iff]
    simp only [not_exists, not_and]
  sequenced := by
    intro edge resolved source sourceMember starts target listed leads
    exact precedes_topologicalOrder_of_edge distinct resolved sourceMember starts listed leads

/-- A cycle of two nodes, one node behind it, a node that leads to itself, and two edges between the
nodes that are left. -/
def heldUp : Graph where
  nodes := [.ofOperation "behind" "X", .ofOperation "last" "X", .ofOperation "left" "X",
    .ofOperation "right" "X", .ofOperation "self" "X", .ofOperation "first" "X"]
  edges := [.between "e1" "left" "right", .between "e2" "right" "left",
    .between "e3" "right" "behind", .between "e4" "self" "self", .between "e5" "first" "last",
    .between "e6" "first" "last", .between "e7" "last" "behind"]

theorem topologicalOrder_exact_heldUp :
    (heldUp.nodes.map Node.id).Nodup ∧
      IsExactOrder heldUp.nodes heldUp.edges (topologicalOrder heldUp.nodes heldUp.edges) ∧
      (topologicalOrder heldUp.nodes heldUp.edges).map Node.id = ["first", "last"] := by
  have distinct : (heldUp.nodes.map Node.id).Nodup := by decide
  exact ⟨distinct, topologicalOrder_exact distinct heldUp.edges, by decide⟩

end TypeGraph
