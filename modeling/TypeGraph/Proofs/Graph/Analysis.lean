import Mathlib.Data.List.GetD
import Mathlib.Data.List.Sort
import TypeGraph.Proofs.Graph.Order
import TypeGraph.Proofs.Graph.Projection
import TypeGraph.Proofs.Graph.Search
import TypeGraph.Proofs.Graph.Wiring

/-!
# Analysis of components

What is found out about a component by itself is what is found out about it in the whole graph:
which nodes are entries or terminals, where inputs come from, in which order the nodes stand, and
whether there is a cycle.
-/

namespace TypeGraph

/-! ## Places of a component -/

def keptAt {α : Type} (keep : α → Bool) (items : List α) (place : Nat) : Bool :=
  items[place]?.any keep

/-- The place in the whole list of an item that is kept. -/
def placeOfKept {α : Type} (keep : α → Bool) (items : List α) (number : Nat) : Nat :=
  (items.findIdxs keep).getD number 0

section Kept

variable {α : Type} {keep : α → Bool} {items : List α}

theorem filter_keptAt_range (keep : α → Bool) (items : List α) :
    (List.range items.length).filter (keptAt keep items) = items.findIdxs keep := by
  have increasing : ((List.range items.length).filter (keptAt keep items)).Pairwise (· < ·) :=
    List.pairwise_lt_range.filter _
  refine increasing.eq_of_mem_iff List.pairwise_findIdxs fun place => ?_
  rw [List.mem_filter, List.mem_range, List.mem_findIdxs_iff_exists_getElem_pos, keptAt]
  constructor
  · rintro ⟨inside, kept⟩
    rw [List.getElem?_eq_getElem inside] at kept
    exact ⟨inside, kept⟩
  · rintro ⟨inside, kept⟩
    rw [List.getElem?_eq_getElem inside]
    exact ⟨inside, kept⟩

theorem length_filter_eq (keep : α → Bool) (items : List α) :
    (items.filter keep).length = (items.findIdxs keep).length := by
  rw [List.length_findIdxs, List.countP_eq_length_filter]

theorem placeOfKept_eq
    {number : Nat}
    (small : number < (items.findIdxs keep).length) :
    placeOfKept keep items number = (items.findIdxs keep)[number] :=
  List.getD_eq_getElem _ _ small

theorem map_placeOfKept_range (keep : α → Bool) (items : List α) :
    (List.range (items.filter keep).length).map (placeOfKept keep items) =
      items.findIdxs keep := by
  rw [length_filter_eq]
  apply List.ext_getElem
  · rw [List.length_map, List.length_range]
  · intro number _ small
    rw [List.getElem_map, List.getElem_range, placeOfKept_eq small]

theorem getElem?_placeOfKept
    {number : Nat}
    (small : number < (items.filter keep).length) :
    items[placeOfKept keep items number]? = (items.filter keep)[number]? := by
  have listed : number < (items.findIdxs keep).length := by
    rwa [← length_filter_eq]
  rw [placeOfKept_eq listed, List.getElem?_eq_getElem small,
    List.getElem_filter_eq_getElem_getElem_findIdxs small, List.getElem?_eq_getElem]

theorem getD_findIdxs_one
    {number : Nat}
    (small : number < (items.filter keep).length) :
    (items.findIdxs keep 1).getD number 0 = placeOfKept keep items number + 1 := by
  rw [length_filter_eq] at small
  have shifted : number < ((items.findIdxs keep).map (· + 1)).length := by
    rwa [List.length_map]
  rw [List.findIdxs_start, List.getD_eq_getElem _ _ shifted, List.getElem_map,
    placeOfKept_eq small]

/-- What is found first among the items that are kept is found first among all. -/
theorem findIdx?_eq_map_placeOfKept
    {sought : α → Bool}
    (kept : ∀ item, sought item → keep item) :
    items.findIdx? sought =
      ((items.filter keep).findIdx? sought).map (placeOfKept keep items) := by
  induction items with
  | nil =>
      rfl
  | cons item rest inner =>
      by_cases found : sought item
      · have first : placeOfKept keep (item :: rest) 0 = 0 := by
          rw [placeOfKept, List.findIdxs_cons, if_pos (kept item found)]
          rfl
        rw [List.filter_cons_of_pos (kept item found), List.findIdx?_cons, List.findIdx?_cons,
          if_pos found, if_pos found, Option.map_some, first]
      · rw [List.findIdx?_cons, if_neg found, inner, Option.map_map]
        by_cases keeps : keep item
        · rw [List.filter_cons_of_pos keeps, List.findIdx?_cons, if_neg found, Option.map_map]
          apply Option.map_congr
          intro number known
          have small := (List.findIdx?_eq_some_iff_getElem.mp known).1
          rw [Function.comp_apply, Function.comp_apply, ← getD_findIdxs_one small, placeOfKept,
            List.findIdxs_cons, if_pos keeps]
          rfl
        · rw [List.filter_cons_of_neg keeps]
          apply Option.map_congr
          intro number known
          have small := (List.findIdx?_eq_some_iff_getElem.mp known).1
          rw [Function.comp_apply, ← getD_findIdxs_one small, placeOfKept, List.findIdxs_cons,
            if_neg keeps]

end Kept

/-! ## Arcs of a component -/

namespace Component

def keeps (component : Component) (node : Node) : Bool :=
  component.contains node.id

namespace IsPart

variable {nodes : List Node} {edges : List Edge} {component : Component}

theorem nodes_eq_filter (part : component.IsPart nodes edges) :
    component.nodes = nodes.filter component.keeps :=
  part.nodes_eq

theorem positionOf?_eq
    (part : component.IsPart nodes edges)
    {id : String}
    (contained : component.contains id) :
    positionOf? nodes id =
      (positionOf? component.nodes id).map (placeOfKept component.keeps nodes) := by
  rw [positionOf?, positionOf?, part.nodes_eq_filter]
  apply findIdx?_eq_map_placeOfKept
  intro node sameId
  rw [keeps, beq_iff_eq.mp sameId]
  exact contained

theorem keptAt_of_positionOf?
    {id : String} {place : Nat}
    (found : positionOf? nodes id = some place) :
    keptAt component.keeps nodes place = component.contains id := by
  obtain ⟨node, stands, rfl⟩ := exists_getElem?_of_positionOf? found
  rw [keptAt, stands]
  rfl

theorem arc?_eq
    (part : component.IsPart nodes edges)
    {edge : Edge}
    (member : edge ∈ component.edges) :
    edge.arc? nodes =
      (edge.arc? component.nodes).map
        (Prod.map (placeOfKept component.keeps nodes) (placeOfKept component.keeps nodes)) := by
  rw [Edge.arc?, Edge.arc?, part.positionOf?_eq (part.contains_source member),
    part.positionOf?_eq (part.contains_target member)]
  cases positionOf? component.nodes edge.source with
  | none =>
      rfl
  | some source =>
      cases positionOf? component.nodes edge.target with
      | none =>
          rfl
      | some target =>
          rfl

theorem arcs_filter_eq (part : component.IsPart nodes edges) :
    ((arcs nodes edges).filter fun arc => keptAt component.keeps nodes arc.1) =
      (arcs component.nodes component.edges).map
        (Prod.map (placeOfKept component.keeps nodes) (placeOfKept component.keeps nodes)) := by
  rw [arcs_eq_filterMap_resolvedEdges, List.filter_filterMap, arcs, List.map_filterMap]
  conv_rhs => rw [part.edges_eq, List.filterMap_filter]
  apply List.filterMap_congr
  intro edge resolved
  cases joined : edge.arc? nodes with
  | none =>
      split
      · next contained =>
        rw [← part.arc?_eq (part.mem_edges_iff.mpr ⟨resolved, contained⟩), joined, Option.filter_none]
      · rfl
  | some arc =>
      have kept : keptAt component.keeps nodes arc.1 = component.contains edge.source :=
        keptAt_of_positionOf? (Edge.arc?_eq_some_iff.mp joined).1
      split
      · next contained =>
        rw [← part.arc?_eq (part.mem_edges_iff.mpr ⟨resolved, contained⟩), joined]
        simp [kept, contained]
      · next outside =>
        simp [kept, outside]

/-- The places of a component, and the arcs among them, are set in those of the graph. -/
theorem inset (part : component.IsPart nodes edges) :
    Inset (keptAt component.keeps nodes) (placeOfKept component.keeps nodes) nodes.length
      component.nodes.length (arcs nodes edges) (arcs component.nodes component.edges) where
  places := by
    rw [filter_keptAt_range, part.nodes_eq_filter, map_placeOfKept_range]
  arcs_eq := part.arcs_filter_eq
  closed := by
    intro arc member
    obtain ⟨edge, known, sourceFound, targetFound⟩ := mem_arcs_iff.mp member
    have resolved : edge ∈ resolvedEdges nodes edges :=
      mem_resolvedEdges.mpr
        ⟨known, hasNode_of_positionOf? sourceFound, hasNode_of_positionOf? targetFound⟩
    rw [keptAt_of_positionOf? sourceFound, keptAt_of_positionOf? targetFound,
      part.closed edge resolved]
  bounded := fun _ member => lt_length_of_mem_arcs member

/-! ## Order -/

theorem placeOrder_filter (part : component.IsPart nodes edges) :
    (placeOrder nodes edges).filter (keptAt component.keeps nodes) =
      (placeOrder component.nodes component.edges).map (placeOfKept component.keeps nodes) :=
  Sorting.order_after_filter part.inset fun _ _ arc => (lt_length_of_mem_arcs arc).2

/-- The nodes of a component stand in the order that they have in the order of the graph. -/
theorem topologicalOrder_eq_filter (part : component.IsPart nodes edges) :
    topologicalOrder component.nodes component.edges =
      (topologicalOrder nodes edges).filter component.keeps := by
  have kept : (topologicalOrder nodes edges).filter component.keeps =
      ((placeOrder nodes edges).filter (keptAt component.keeps nodes)).filterMap (nodes[·]?) := by
    rw [topologicalOrder_eq, List.filter_filterMap, List.filterMap_filter]
    apply List.filterMap_congr
    intro place _
    cases stands : nodes[place]? with
    | none =>
        simp
    | some node =>
        by_cases inside : component.keeps node
        · simp [keptAt, stands, inside]
        · simp [keptAt, stands, inside]
  rw [kept, part.placeOrder_filter, List.filterMap_map, topologicalOrder_eq]
  apply List.filterMap_congr
  intro number member
  have small : number < (nodes.filter component.keeps).length := by
    rw [← part.nodes_eq_filter]
    exact lt_length_of_mem_placeOrder member
  rw [Function.comp_apply, getElem?_placeOfKept small, ← part.nodes_eq_filter]

/-! ## Entries, terminals and wires -/

/-- Nodes that no edge touches in a way that only edges of their own component can. -/
theorem untouched_eq_filter
    (part : component.IsPart nodes edges)
    {touches : Node → Edge → Bool}
    (near : ∀ node, component.contains node.id → ∀ edge ∈ resolvedEdges nodes edges,
      touches node edge → component.contains edge.source) :
    (component.nodes.filter fun node => !component.edges.any (touches node)) =
      (nodes.filter fun node => !(resolvedEdges nodes edges).any (touches node)).filter
        component.keeps := by
  conv_lhs => rw [part.nodes_eq_filter]
  rw [List.filter_filter, List.filter_filter]
  apply List.filter_congr
  intro node _
  by_cases contained : component.contains node.id
  · have sameEdges : component.edges.any (touches node) =
        (resolvedEdges nodes edges).any (touches node) := by
      rw [Bool.eq_iff_iff, List.any_eq_true, List.any_eq_true]
      constructor
      · rintro ⟨edge, member, touched⟩
        exact ⟨edge, (part.mem_edges_iff.mp member).1, touched⟩
      · rintro ⟨edge, resolved, touched⟩
        exact ⟨edge, part.mem_edges_iff.mpr ⟨resolved, near node contained edge resolved touched⟩,
          touched⟩
    rw [sameEdges, Bool.and_comm]
  · have dropped : component.keeps node = false := Bool.eq_false_iff.mpr contained
    rw [dropped, Bool.and_false, Bool.false_and]

theorem entryNodes_eq_filter (part : component.IsPart nodes edges) :
    entryNodes component.nodes component.edges =
      (entryNodes nodes (resolvedEdges nodes edges)).filter component.keeps := by
  apply part.untouched_eq_filter
  intro node contained edge resolved leads
  rw [part.closed edge resolved, beq_iff_eq.mp leads]
  exact contained

theorem terminalNodes_eq_filter (part : component.IsPart nodes edges) :
    terminalNodes component.nodes component.edges =
      (terminalNodes nodes (resolvedEdges nodes edges)).filter component.keeps := by
  apply part.untouched_eq_filter
  intro node contained edge _ starts
  rw [beq_iff_eq.mp starts]
  exact contained

theorem get?_wiring_eq
    (part : component.IsPart nodes edges)
    {id : String}
    (contained : component.contains id) :
    (Wiring.ofEdges component.edges).get? id =
      (Wiring.ofEdges (resolvedEdges nodes edges)).get? id := by
  rw [Wiring.get?_ofEdges, Wiring.get?_ofEdges, part.edgesInto_eq contained]

/-! ## Cycles -/

theorem transGen_links
    (part : component.IsPart nodes edges)
    {source target : String}
    (contained : component.contains source)
    (walk : Relation.TransGen (Leads (links nodes edges)) source target) :
    component.contains target ∧
      Relation.TransGen (Leads (links component.nodes component.edges)) source target := by
  have step : ∀ {earlier later}, component.contains earlier →
      Leads (links nodes edges) earlier later →
        component.contains later ∧
          Leads (links component.nodes component.edges) earlier later := by
    intro earlier later inside link
    obtain ⟨edge, resolved, rfl, rfl⟩ := mem_links_iff.mp link
    have member : edge ∈ component.edges := part.mem_edges_iff.mpr ⟨resolved, inside⟩
    refine ⟨part.contains_target member, mem_links_iff.mpr ⟨edge, ?_, rfl, rfl⟩⟩
    rw [part.resolvedEdges_eq]
    exact member
  induction walk with
  | single link =>
      exact ⟨(step contained link).1, Relation.TransGen.single (step contained link).2⟩
  | tail _ link inner =>
      exact ⟨(step inner.1 link).1, inner.2.tail (step inner.1 link).2⟩

end IsPart

end Component

variable {nodes : List Node} {edges : List Edge}

theorem acyclic_links_of_components
    (each : ∀ component ∈ connectedComponents nodes edges,
      Acyclic (links component.nodes component.edges)) :
    Acyclic (links nodes edges) := by
  intro point walk
  obtain ⟨next, first, _⟩ := Relation.TransGen.head'_iff.mp walk
  obtain ⟨edge, resolved, rfl, _⟩ := mem_links_iff.mp first
  have placed : ∃ component ∈ connectedComponents nodes edges, component.contains edge.source :=
    exists_component (mem_resolvedEdges.mp resolved).2.1
  obtain ⟨component, member, contained⟩ := placed
  have inside := ((isPart_of_mem member).transGen_links contained walk).2
  exact each component member edge.source inside

theorem hasCycle_iff_exists_component :
    hasCycle nodes edges ↔
      ∃ component ∈ connectedComponents nodes edges,
        hasCycle component.nodes component.edges := by
  rw [hasCycle_iff]
  constructor
  · intro cyclic
    by_contra none
    refine cyclic (acyclic_links_of_components fun component member => ?_)
    by_contra componentCyclic
    exact none ⟨component, member, hasCycle_iff.mpr componentCyclic⟩
  · rintro ⟨component, member, cyclic⟩ acyclic
    exact hasCycle_iff.mp cyclic ((isPart_of_mem member).acyclic_links acyclic)

/-! ## Agreement -/

/-- Whether a component by itself is what it is in a graph. -/
structure Component.Agrees (nodes : List Node) (edges : List Edge) (component : Component) :
    Prop where
  entries : entryNodes component.nodes component.edges =
    (entryNodes nodes (resolvedEdges nodes edges)).filter fun node => component.contains node.id
  terminals : terminalNodes component.nodes component.edges =
    (terminalNodes nodes (resolvedEdges nodes edges)).filter fun node => component.contains node.id
  wiring : ∀ id, component.contains id →
    (Wiring.ofEdges component.edges).get? id =
      (Wiring.ofEdges (resolvedEdges nodes edges)).get? id
  order : topologicalOrder component.nodes component.edges =
    (topologicalOrder nodes edges).filter fun node => component.contains node.id

/-- Each component agrees with the graph, and the graph has a cycle if and only if one of them
has. -/
theorem components_agree
    (nodes : List Node) (edges : List Edge) :
    (∀ component ∈ connectedComponents nodes edges, component.Agrees nodes edges) ∧
      (hasCycle nodes edges ↔
        ∃ component ∈ connectedComponents nodes edges,
          hasCycle component.nodes component.edges) := by
  refine ⟨fun component member => ?_, hasCycle_iff_exists_component⟩
  have part := isPart_of_mem member
  exact ⟨part.entryNodes_eq_filter, part.terminalNodes_eq_filter,
    fun _ contained => part.get?_wiring_eq contained, part.topologicalOrder_eq_filter⟩

/-- Two components that alternate, one of them with a repeated id and one with a cycle. -/
def alternating : Graph where
  nodes := [.ofOperation "a" "X", .ofOperation "b" "X", .ofOperation "c" "X",
    .ofOperation "a" "X", .ofOperation "d" "X"]
  edges := [.between "e1" "c" "a", .between "e2" "d" "b", .between "e3" "b" "d",
    .between "e4" "a" "gone", .between "e5" "c" "a"]

theorem components_agree_alternating :
    (∃ component ∈ connectedComponents alternating.nodes alternating.edges,
      component.contains "a" ∧ component.Agrees alternating.nodes alternating.edges) ∧
      (hasCycle alternating.nodes alternating.edges ↔
        ∃ component ∈ connectedComponents alternating.nodes alternating.edges,
          hasCycle component.nodes component.edges) := by
  have agree := components_agree alternating.nodes alternating.edges
  have placed : ∃ component ∈ connectedComponents alternating.nodes alternating.edges,
      component.contains "a" := exists_component rfl
  obtain ⟨component, member, contained⟩ := placed
  exact ⟨⟨component, member, contained, agree.1 component member⟩, agree.2⟩

end TypeGraph
