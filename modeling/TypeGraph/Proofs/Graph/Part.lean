import TypeGraph.Proofs.Graph.Grouping

/-!
# Parts of a graph

A component has all nodes with some ids, and all resolved edges between them; no resolved edge leads
into it or out of it. Each node of a graph is in exactly one of its components. What concerns an id
of a component, such as the edges that lead to it, is the same in the component as in the graph.
-/

namespace TypeGraph

/-- The edges that lead to an id. -/
def edgesInto (edges : List Edge) (id : String) : List Edge :=
  edges.filter fun edge => edge.target == id

namespace Component

/-- Whether a component is cut out of a graph along no resolved edge. -/
structure IsPart (nodes : List Node) (edges : List Edge) (component : Component) : Prop where
  nodes_eq : component.nodes = nodes.filter fun node => component.contains node.id
  edges_eq : component.edges =
    (resolvedEdges nodes edges).filter fun edge => component.contains edge.source
  /-- The two ends of a resolved edge are in the component together. -/
  closed : ∀ edge ∈ resolvedEdges nodes edges,
    component.contains edge.source = component.contains edge.target

theorem contains_of_mem {component : Component} {node : Node} (member : node ∈ component.nodes) :
    component.contains node.id :=
  hasNode_of_mem member

variable {nodes : List Node} {edges : List Edge} {component : Component}

namespace IsPart

theorem mem_nodes_iff (part : component.IsPart nodes edges) {node : Node} :
    node ∈ component.nodes ↔ node ∈ nodes ∧ component.contains node.id := by
  conv_lhs => rw [part.nodes_eq]
  exact List.mem_filter

theorem mem_edges_iff (part : component.IsPart nodes edges) {edge : Edge} :
    edge ∈ component.edges ↔
      edge ∈ resolvedEdges nodes edges ∧ component.contains edge.source := by
  rw [part.edges_eq]
  exact List.mem_filter

theorem contains_source
    (part : component.IsPart nodes edges)
    {edge : Edge}
    (member : edge ∈ component.edges) :
    component.contains edge.source :=
  (part.mem_edges_iff.mp member).2

theorem contains_target
    (part : component.IsPart nodes edges)
    {edge : Edge}
    (member : edge ∈ component.edges) :
    component.contains edge.target := by
  have both := part.mem_edges_iff.mp member
  rw [← part.closed edge both.1]
  exact both.2

/-- All edges of a component are resolved in it. -/
theorem resolvedEdges_eq (part : component.IsPart nodes edges) :
    resolvedEdges component.nodes component.edges = component.edges := by
  apply List.filter_eq_self.mpr
  intro edge member
  rw [Edge.isResolved, Bool.and_eq_true]
  exact ⟨part.contains_source member, part.contains_target member⟩

/-- The first node with an id of a component is the first one of the graph. -/
theorem find?_id_eq
    (part : component.IsPart nodes edges)
    {id : String}
    (contained : component.contains id) :
    (component.nodes.find? fun node => node.id == id) = nodes.find? fun node => node.id == id := by
  rw [part.nodes_eq, List.find?_filter]
  congr 1
  funext node
  by_cases same : node.id = id
  · simp [same, contained]
  · simp [same]

theorem distinct_ids
    (part : component.IsPart nodes edges)
    (distinct : (nodes.map Node.id).Nodup) :
    (component.nodes.map Node.id).Nodup := by
  have sublist : component.nodes.Sublist nodes := by
    rw [part.nodes_eq]
    exact List.filter_sublist
  exact distinct.sublist (sublist.map Node.id)

theorem acyclic_links
    (part : component.IsPart nodes edges)
    (acyclic : Acyclic (links nodes edges)) :
    Acyclic (links component.nodes component.edges) := by
  refine acyclic.of_subset (List.map_subset Edge.ends ?_)
  intro edge member
  rw [part.resolvedEdges_eq] at member
  exact (part.mem_edges_iff.mp member).1

/-- The edges that lead to an id of a component are all in the component, in their order. -/
theorem edgesInto_eq
    (part : component.IsPart nodes edges)
    {id : String}
    (contained : component.contains id) :
    edgesInto component.edges id = edgesInto (resolvedEdges nodes edges) id := by
  rw [edgesInto, edgesInto, part.edges_eq, List.filter_filter]
  apply List.filter_congr
  intro edge resolved
  by_cases leads : edge.target = id
  · rw [part.closed edge resolved, leads, contained, Bool.and_true]
  · rw [beq_eq_false_iff_ne.mpr leads, Bool.false_and]

end IsPart

end Component

/-! ## The components of a graph -/

variable {nodes : List Node} {edges : List Edge}

theorem contains_groupComponent
    {group : List String}
    (member : group ∈ idGroups nodes edges)
    (id : String) :
    (groupComponent nodes edges group).contains id = group.contains id := by
  rw [Bool.eq_iff_iff, Component.contains, hasNode_iff, List.contains_iff_mem]
  simp only [groupComponent, List.mem_map, List.mem_filter, List.contains_iff_mem]
  constructor
  · rintro ⟨node, ⟨_, held⟩, rfl⟩
    exact held
  · intro held
    have known : id ∈ nodes.map Node.id :=
      mem_flatten_idGroups.mp (List.mem_flatten_of_mem member held)
    obtain ⟨node, nodeMember, rfl⟩ := List.mem_map.mp known
    exact ⟨node, ⟨nodeMember, held⟩, rfl⟩

theorem isPart_groupComponent
    {group : List String}
    (member : group ∈ idGroups nodes edges) :
    (groupComponent nodes edges group).IsPart nodes edges where
  nodes_eq := by
    simp only [contains_groupComponent member]
    rfl
  edges_eq := by
    simp only [contains_groupComponent member]
    rfl
  closed := by
    intro edge resolved
    rw [contains_groupComponent member, contains_groupComponent member, Bool.eq_iff_iff,
      List.contains_iff_mem, List.contains_iff_mem]
    exact source_mem_iff_target_mem member resolved

/-- Every component is a part of the graph. -/
theorem isPart_of_mem
    {component : Component}
    (member : component ∈ connectedComponents nodes edges) :
    component.IsPart nodes edges := by
  obtain ⟨group, groupMember, rfl⟩ := List.mem_map.mp (connectedComponents_eq nodes edges ▸ member)
  exact isPart_groupComponent groupMember

theorem nodes_ne_nil_of_mem
    {component : Component}
    (member : component ∈ connectedComponents nodes edges) :
    component.nodes ≠ [] := by
  obtain ⟨group, groupMember, rfl⟩ := List.mem_map.mp (connectedComponents_eq nodes edges ▸ member)
  obtain ⟨id, held⟩ := List.exists_mem_of_ne_nil group (ne_nil_of_mem_connectedGroups groupMember)
  have contained := contains_groupComponent groupMember id
  rw [List.contains_iff_mem.mpr held] at contained
  intro empty
  rw [Component.contains, empty] at contained
  cases contained

/-- One component has an id of the graph, and no other component has it. -/
theorem exists_split_components
    {id : String}
    (edges : List Edge)
    (present : hasNode nodes id) :
    ∃ before component after,
      connectedComponents nodes edges = before ++ component :: after ∧
        component.contains id ∧
        ∀ other ∈ before ++ after, ¬ other.contains id := by
  have grouped : id ∈ (idGroups nodes edges).flatten :=
    mem_flatten_idGroups.mpr (hasNode_iff.mp present)
  obtain ⟨group, groupMember, held⟩ := List.mem_flatten.mp grouped
  obtain ⟨before, after, split⟩ := List.append_of_mem groupMember
  have distinct : (idGroups nodes edges).flatten.Nodup := nodup_flatten_idGroups nodes edges
  have apart : ∀ other ∈ before ++ after, group.Disjoint other := by
    have disjoint := (List.nodup_flatten.mp distinct).2
    rw [split, List.pairwise_middle fun apart => apart.symm, List.pairwise_cons] at disjoint
    exact disjoint.1
  refine ⟨before.map (groupComponent nodes edges), groupComponent nodes edges group,
    after.map (groupComponent nodes edges), ?_, ?_, ?_⟩
  · rw [connectedComponents_eq, split, List.map_append, List.map_cons]
  · rw [contains_groupComponent groupMember, List.contains_iff_mem]
    exact held
  · intro other member contained
    rw [← List.map_append] at member
    obtain ⟨otherGroup, otherMember, rfl⟩ := List.mem_map.mp member
    have known : otherGroup ∈ idGroups nodes edges := by
      rw [split, List.perm_middle.mem_iff]
      exact List.mem_cons_of_mem group otherMember
    rw [contains_groupComponent known, List.contains_iff_mem] at contained
    exact apart otherGroup otherMember held contained

/-- Each id of a graph is in one of the components. -/
theorem exists_component
    {id : String}
    (present : hasNode nodes id) :
    ∃ component ∈ connectedComponents nodes edges, component.contains id := by
  obtain ⟨before, component, after, split, contained, _⟩ := exists_split_components edges present
  refine ⟨component, ?_, contained⟩
  simp [split]

/-- What only the component of an id has a share in comes from that component. -/
theorem exists_component_flatMap_eq
    {α : Type} {id : String}
    (edges : List Edge) (share : Component → List α)
    (present : hasNode nodes id)
    (elsewhere : ∀ component ∈ connectedComponents nodes edges,
      ¬ component.contains id → share component = []) :
    ∃ component ∈ connectedComponents nodes edges,
      component.contains id ∧
        (connectedComponents nodes edges).flatMap share = share component := by
  obtain ⟨before, component, after, split, contained, others⟩ :=
    exists_split_components edges present
  have nothing : ∀ other ∈ before ++ after, share other = [] := by
    intro other member
    apply elsewhere other _ (others other member)
    rw [split, List.perm_middle.mem_iff]
    exact List.mem_cons_of_mem component member
  have first : before.flatMap share = [] :=
    List.flatMap_eq_nil_iff.mpr fun other member => nothing other (List.mem_append_left _ member)
  have last : after.flatMap share = [] :=
    List.flatMap_eq_nil_iff.mpr fun other member => nothing other (List.mem_append_right _ member)
  refine ⟨component, ?_, contained, ?_⟩
  · simp [split]
  · rw [split, List.flatMap_append, List.flatMap_cons, first, last, List.nil_append,
      List.append_nil]

/-- An item that is put in front of the items of the one group that holds its id is in front of the
items of all groups together. -/
theorem flatMap_cons_perm
    {α : Type} (item : α) (id : String) (members : List String → List α)
    {groups : List (List String)}
    (distinct : groups.flatten.Nodup)
    (held : id ∈ groups.flatten) :
    (groups.flatMap fun group =>
        if group.contains id then item :: members group else members group).Perm
      (item :: groups.flatMap members) := by
  induction groups with
  | nil =>
      cases held
  | cons group rest inner =>
      rw [List.flatten_cons] at distinct held
      have ⟨_, distinctRest, apart⟩ := List.nodup_append.mp distinct
      rw [List.flatMap_cons, List.flatMap_cons]
      by_cases here : id ∈ group
      · have unchanged : (rest.flatMap fun group =>
            if group.contains id then item :: members group else members group) =
              rest.flatMap members := by
          refine List.flatMap_congr fun other otherMember => if_neg fun alsoThere => ?_
          have later : id ∈ rest.flatten :=
            List.mem_flatten_of_mem otherMember (List.contains_iff_mem.mp alsoThere)
          exact apart id here id later rfl
        rw [if_pos (List.contains_iff_mem.mpr here), unchanged]
        exact List.Perm.refl _
      · rw [if_neg fun contained => here (List.contains_iff_mem.mp contained)]
        have later := (List.mem_append.mp held).resolve_left here
        exact ((inner distinctRest later).append_left (members group)).trans List.perm_middle

/-- Items that are chosen by the groups that hold their ids are all items, each once. -/
theorem flatMap_filter_perm
    {α : Type} (idOf : α → String) {items : List α} {groups : List (List String)}
    (distinct : groups.flatten.Nodup)
    (covered : ∀ item ∈ items, idOf item ∈ groups.flatten) :
    (groups.flatMap fun group => items.filter fun item => group.contains (idOf item)).Perm
      items := by
  induction items with
  | nil =>
      simp
  | cons item rest inner =>
      have split : (groups.flatMap fun group =>
          (item :: rest).filter fun item => group.contains (idOf item)) =
            groups.flatMap fun group =>
              if group.contains (idOf item) then
                item :: rest.filter fun item => group.contains (idOf item)
              else rest.filter fun item => group.contains (idOf item) :=
        List.flatMap_congr fun group _ => List.filter_cons
      rw [split]
      have held := covered item List.mem_cons_self
      refine (flatMap_cons_perm item (idOf item) _ distinct held).trans ?_
      exact (inner fun other member => covered other (List.mem_cons_of_mem item member)).cons item

/-- The components have all nodes of the graph, each once. -/
theorem flatMap_nodes_perm (nodes : List Node) (edges : List Edge) :
    ((connectedComponents nodes edges).flatMap Component.nodes).Perm nodes := by
  rw [connectedComponents_eq, List.flatMap_map]
  refine flatMap_filter_perm Node.id (nodup_flatten_idGroups nodes edges) fun node member => ?_
  exact mem_flatten_idGroups.mpr (List.mem_map_of_mem member)

/-- The components have all resolved edges of the graph, each once. -/
theorem flatMap_edges_perm (nodes : List Node) (edges : List Edge) :
    ((connectedComponents nodes edges).flatMap Component.edges).Perm
      (resolvedEdges nodes edges) := by
  rw [connectedComponents_eq, List.flatMap_map]
  refine flatMap_filter_perm Edge.source (nodup_flatten_idGroups nodes edges) fun edge member => ?_
  exact mem_flatten_idGroups.mpr (hasNode_iff.mp (mem_resolvedEdges.mp member).2.1)

end TypeGraph
