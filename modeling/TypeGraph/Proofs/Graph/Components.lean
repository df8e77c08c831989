import TypeGraph.Proofs.Graph.Part

/-!
# Components of a graph

The components divide the nodes and the resolved edges of a graph among them. Two nodes are in one
component if and only if a walk along resolved edges, in either direction, joins their ids. The
components come in the order of their first nodes.
-/

namespace TypeGraph

variable {nodes : List Node} {edges : List Edge}

/-! ## Joined ids -/

/-- A component that has an id has all ids joined to it. -/
theorem Component.IsPart.contains_of_joined
    {component : Component}
    (part : component.IsPart nodes edges)
    {first second : String}
    (joined : Joined (links nodes edges) first second)
    (contained : component.contains first) :
    component.contains second := by
  induction joined with
  | refl =>
      exact contained
  | tail _ step inner =>
      rcases step with onward | back
      · obtain ⟨edge, resolved, rfl, rfl⟩ := mem_links_iff.mp onward
        rw [← part.closed edge resolved]
        exact inner
      · obtain ⟨edge, resolved, rfl, rfl⟩ := mem_links_iff.mp back
        rw [part.closed edge resolved]
        exact inner

theorem joined_of_contains
    {component : Component}
    (member : component ∈ connectedComponents nodes edges)
    {first second : String}
    (firstContained : component.contains first)
    (secondContained : component.contains second) :
    Joined (links nodes edges) first second := by
  obtain ⟨group, groupMember, rfl⟩ := List.mem_map.mp (connectedComponents_eq nodes edges ▸ member)
  rw [contains_groupComponent groupMember, List.contains_iff_mem] at firstContained secondContained
  exact (mem_group_iff_joined groupMember firstContained).mp secondContained

/-- Nodes are in one component exactly if their ids are joined. -/
theorem exists_component_iff_joined
    {left right : Node}
    (leftMember : left ∈ nodes)
    (rightMember : right ∈ nodes) :
    (∃ component ∈ connectedComponents nodes edges,
        left ∈ component.nodes ∧ right ∈ component.nodes) ↔
      Joined (links nodes edges) left.id right.id := by
  constructor
  · rintro ⟨component, member, leftHeld, rightHeld⟩
    exact joined_of_contains member (Component.contains_of_mem leftHeld)
      (Component.contains_of_mem rightHeld)
  · intro joined
    have placed : ∃ component ∈ connectedComponents nodes edges, component.contains left.id :=
      exists_component (hasNode_of_mem leftMember)
    obtain ⟨component, member, contained⟩ := placed
    have part := isPart_of_mem member
    have alsoContained := part.contains_of_joined joined contained
    exact ⟨component, member, part.mem_nodes_iff.mpr ⟨leftMember, contained⟩,
      part.mem_nodes_iff.mpr ⟨rightMember, alsoContained⟩⟩

/-! ## The places of components -/

/-- One component has an id of the graph. -/
theorem existsUnique_component
    {id : String}
    (edges : List Edge)
    (present : hasNode nodes id) :
    ∃! index : Nat, ∃ component : Component,
      (connectedComponents nodes edges)[index]? = some component ∧ component.contains id := by
  obtain ⟨before, component, after, split, contained, others⟩ :=
    exists_split_components edges present
  rw [split]
  refine ⟨before.length, ⟨component, by simp, contained⟩, ?_⟩
  rintro index ⟨other, stands, otherContained⟩
  by_contra elsewhere
  refine others other ?_ otherContained
  rcases Nat.lt_or_gt_of_ne elsewhere with earlier | later
  · rw [List.getElem?_append_left earlier] at stands
    exact List.mem_append_left _ (List.mem_of_getElem? stands)
  · obtain ⟨further, rfl⟩ := Nat.exists_eq_add_of_lt later
    rw [List.getElem?_append_right (by omega)] at stands
    refine List.mem_append_right before (List.mem_of_getElem? (i := further) ?_)
    simpa [Nat.add_assoc] using stands

/-- What holds of the component with an id of the graph and of no other holds at one place. -/
theorem existsUnique_component_of_iff
    {id : String} {holds : Component → Prop}
    (present : hasNode nodes id)
    (same : ∀ component ∈ connectedComponents nodes edges, holds component ↔ component.contains id) :
    ∃! index : Nat, ∃ component : Component,
      (connectedComponents nodes edges)[index]? = some component ∧ holds component := by
  refine (existsUnique_congr fun index => exists_congr fun component => ?_).mpr
    (existsUnique_component edges present)
  exact and_congr_right fun stands => same component (List.mem_of_getElem? stands)

/-- The place of the first node of a component. -/
def firstPlace (nodes : List Node) (component : Component) : Nat :=
  nodes.findIdx fun node => component.contains node.id

theorem firstPlace_groupComponent
    {group : List String}
    (member : group ∈ idGroups nodes edges) :
    firstPlace nodes (groupComponent nodes edges group) =
      (nodes.map Node.id).findIdx group.contains := by
  rw [firstPlace, List.findIdx_map]
  congr 1
  funext node
  exact contains_groupComponent member node.id

theorem idxOf_getElem_le {ids : List String} {index : Nat} (inside : index < ids.length) :
    ids.idxOf ids[index] ≤ index := by
  by_contra later
  have missed := List.not_of_lt_findIdx (p := (· == ids[index])) (Nat.lt_of_not_le later)
  simp at missed

/-- Ids of which one is earlier than all of some others are met earlier. -/
theorem findIdx_contains_lt
    {ids front back : List String} {id other : String}
    (held : id ∈ front)
    (otherKnown : other ∈ ids)
    (otherHeld : other ∈ back)
    (earlier : ∀ other ∈ back, ids.idxOf id < ids.idxOf other) :
    ids.findIdx front.contains < ids.findIdx back.contains := by
  have met : ids.findIdx front.contains ≤ ids.idxOf id := by
    refine List.findIdx_le_findIdx fun met _ same => ?_
    rw [beq_iff_eq.mp same]
    exact List.contains_iff_mem.mpr held
  have inside : ids.findIdx back.contains < ids.length :=
    List.findIdx_lt_length_of_exists ⟨other, otherKnown, List.contains_iff_mem.mpr otherHeld⟩
  have backHeld : ids[ids.findIdx back.contains] ∈ back :=
    List.contains_iff_mem.mp List.findIdx_getElem
  calc ids.findIdx front.contains
      ≤ ids.idxOf id := met
    _ < ids.idxOf ids[ids.findIdx back.contains] := earlier _ backHeld
    _ ≤ ids.findIdx back.contains := idxOf_getElem_le inside

/-- Components come in the order of their first nodes. -/
theorem pairwise_firstPlace (nodes : List Node) (edges : List Edge) :
    (connectedComponents nodes edges).Pairwise fun front back =>
      firstPlace nodes front < firstPlace nodes back := by
  rw [connectedComponents_eq, List.pairwise_map]
  refine (led_connectedGroups (nodes.map Node.id) (resolvedEdges nodes edges)).pairwise
    |>.imp_of_mem fun {front back} frontMember backMember led => ?_
  obtain ⟨id, held, earlier⟩ := led
  obtain ⟨other, otherHeld⟩ :=
    List.exists_mem_of_ne_nil back (ne_nil_of_mem_connectedGroups backMember)
  rw [firstPlace_groupComponent frontMember, firstPlace_groupComponent backMember]
  exact findIdx_contains_lt held
    (mem_flatten_idGroups.mp (List.mem_flatten_of_mem backMember otherHeld)) otherHeld earlier

/-! ## The division -/

/-- Whether components divide the nodes and the resolved edges of a graph. -/
structure Divides (nodes : List Node) (edges : List Edge) (components : List Component) : Prop where
  /-- A component has all nodes with some ids, and all resolved edges that start from these ids, in
  their order; both ends of such an edge are in it or none is. -/
  parts : ∀ component ∈ components, component.IsPart nodes edges
  nodesOnce : ∀ node ∈ nodes, ∃! index : Nat, ∃ component : Component,
    components[index]? = some component ∧ node ∈ component.nodes
  edgesOnce : ∀ edge ∈ resolvedEdges nodes edges, ∃! index : Nat, ∃ component : Component,
    components[index]? = some component ∧ edge ∈ component.edges
  /-- Nodes and edges that are there several times are divided as often. -/
  nodes_perm : (components.flatMap Component.nodes).Perm nodes
  edges_perm : (components.flatMap Component.edges).Perm (resolvedEdges nodes edges)
  dangling : ∀ edge ∈ danglingEdges nodes edges, ∀ component ∈ components, edge ∉ component.edges
  joined : ∀ left ∈ nodes, ∀ right ∈ nodes,
    (∃ component ∈ components, left ∈ component.nodes ∧ right ∈ component.nodes) ↔
      Joined (links nodes edges) left.id right.id
  ends : ∀ component ∈ components, ∀ edge ∈ component.edges,
    component.contains edge.source ∧ component.contains edge.target
  occupied : ∀ component ∈ components, component.nodes ≠ []
  ordered : components.Pairwise fun front back => firstPlace nodes front < firstPlace nodes back

/-- The components of any graph divide it. -/
theorem connectedComponents_divide (nodes : List Node) (edges : List Edge) :
    Divides nodes edges (connectedComponents nodes edges) where
  parts := fun _ member => isPart_of_mem member
  nodesOnce := by
    intro node member
    refine existsUnique_component_of_iff (hasNode_of_mem member) fun component known => ?_
    rw [(isPart_of_mem known).mem_nodes_iff, and_iff_right member]
  edgesOnce := by
    intro edge resolved
    refine existsUnique_component_of_iff (mem_resolvedEdges.mp resolved).2.1
      fun component known => ?_
    rw [(isPart_of_mem known).mem_edges_iff, and_iff_right resolved]
  nodes_perm := flatMap_nodes_perm nodes edges
  edges_perm := flatMap_edges_perm nodes edges
  dangling := by
    intro edge missing component member held
    have resolved := ((isPart_of_mem member).mem_edges_iff.mp held).1
    have unresolved := (List.mem_filter.mp missing).2
    rw [(List.mem_filter.mp resolved).2] at unresolved
    cases unresolved
  joined := fun _ leftMember _ rightMember => exists_component_iff_joined leftMember rightMember
  ends := by
    intro component member edge held
    have part := isPart_of_mem member
    exact ⟨part.contains_source held, part.contains_target held⟩
  occupied := fun _ member => nodes_ne_nil_of_mem member
  ordered := pairwise_firstPlace nodes edges

end TypeGraph
