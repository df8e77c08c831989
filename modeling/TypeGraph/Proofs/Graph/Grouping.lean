import TypeGraph.Proofs.Graph.Exploration
import TypeGraph.Proofs.Graph.Partition

/-!
# Searches and groups

The ids that one search after another meets are those of the connected groups, in the order of the
groups: a group has the ids that are joined to any one of them, and it is met by the search from its
first id.
-/

namespace TypeGraph

/-- The component that a group of ids makes. -/
def groupComponent (nodes : List Node) (edges : List Edge) (group : List String) : Component :=
  ⟨nodes.filter fun node => group.contains node.id,
    (resolvedEdges nodes edges).filter fun edge => group.contains edge.source⟩

/-- The groups of the ids that resolved edges connect. -/
def idGroups (nodes : List Node) (edges : List Edge) : List (List String) :=
  connectedGroups (nodes.map Node.id) (resolvedEdges nodes edges)

/-- Whether two lists have the same ids. -/
def SameIds (left right : List String) : Prop :=
  ∀ id, id ∈ left ↔ id ∈ right

variable {nodes : List Node} {edges : List Edge}

/-! ## Groups -/

theorem nodup_flatten_idGroups (nodes : List Node) (edges : List Edge) :
    (idGroups nodes edges).flatten.Nodup :=
  nodup_flatten_connectedGroups _ _

theorem mem_flatten_idGroups {id : String} :
    id ∈ (idGroups nodes edges).flatten ↔ id ∈ nodes.map Node.id :=
  mem_flatten_connectedGroups

/-- The ends of a resolved edge are in one group. -/
theorem source_mem_iff_target_mem
    {group : List String} {edge : Edge}
    (member : group ∈ idGroups nodes edges)
    (resolved : edge ∈ resolvedEdges nodes edges) :
    edge.source ∈ group ↔ edge.target ∈ group := by
  obtain ⟨_, sourcePresent, targetPresent⟩ := mem_resolvedEdges.mp resolved
  obtain ⟨holder, holderMember, sourceHeld, targetHeld⟩ :=
    together_connectedGroups resolved (hasNode_iff.mp sourcePresent) (hasNode_iff.mp targetPresent)
  have same : ∀ {id}, id ∈ holder → id ∈ group → holder = group :=
    eq_of_mem_of_nodup_flatten (nodup_flatten_idGroups nodes edges) holderMember member
  constructor
  · intro held
    exact same sourceHeld held ▸ targetHeld
  · intro held
    exact same targetHeld held ▸ sourceHeld

/-- A group has the ids that are joined to any one of them. -/
theorem mem_group_iff_joined
    {group : List String} {id other : String}
    (member : group ∈ idGroups nodes edges)
    (held : id ∈ group) :
    other ∈ group ↔ Joined (links nodes edges) id other := by
  constructor
  · intro otherHeld
    have related := related_connectedGroups (joined_equivalence (links nodes edges))
      (nodes.map Node.id) fun _ resolved => joined_of_edge resolved
    exact related group member id held other otherHeld
  · intro joined
    induction joined with
    | refl =>
        exact held
    | tail _ step inner =>
        rcases step with onward | back
        · obtain ⟨edge, resolved, rfl, rfl⟩ := mem_links_iff.mp onward
          exact (source_mem_iff_target_mem member resolved).mp inner
        · obtain ⟨edge, resolved, rfl, rfl⟩ := mem_links_iff.mp back
          exact (source_mem_iff_target_mem member resolved).mpr inner

/-! ## The groups that searches meet -/

/-- The neighbors that the resolved edges of a graph make. -/
abbrev resolvedNeighbors (nodes : List Node) (edges : List Edge) : Neighbors :=
  .ofEdges (resolvedEdges nodes edges)

/-- No walk leads out of groups. -/
theorem encloses_flatten
    {groups : List (List String)}
    (known : groups ⊆ idGroups nodes edges) :
    (resolvedNeighbors nodes edges).Encloses groups.flatten := by
  intro id member other next
  obtain ⟨group, groupMember, held⟩ := List.mem_flatten.mp member
  have joined : (resolvedNeighbors nodes edges).Joins id other := Relation.ReflTransGen.single next
  rw [Neighbors.joins_ofEdges] at joined
  exact List.mem_flatten_of_mem groupMember
    ((mem_group_iff_joined (known groupMember) held).mpr joined)

theorem encloses_ids (nodes : List Node) (edges : List Edge) :
    (resolvedNeighbors nodes edges).Encloses (nodes.map Node.id) := by
  intro id member other next
  have grouped : id ∈ (idGroups nodes edges).flatten := mem_flatten_idGroups.mpr member
  exact mem_flatten_idGroups.mp (encloses_flatten (List.Subset.refl _) id grouped other next)

/-- Of groups that stand in the order of their first ids, the first one has the first id that is in
any of them. -/
theorem Led.mem_head
    {ids passed rest group : List String} {later : List (List String)} {id : String}
    (led : Led (fun first second => ids.idxOf first < ids.idxOf second) (group :: later))
    (split : ids = passed ++ id :: rest)
    (fresh : id ∉ passed)
    (free : ∀ other ∈ group, other ∉ passed)
    (held : id ∈ (group :: later).flatten) :
    id ∈ group := by
  cases led with
  | @cons lead members _ first _ =>
      by_contra elsewhere
      have place : ids.idxOf id = passed.length := by
        rw [split, List.idxOf_append_of_notMem fresh, List.idxOf_cons_self, Nat.add_zero]
      have leadPlace : passed.length ≤ ids.idxOf lead := by
        rw [split, List.idxOf_append_of_notMem (free lead List.mem_cons_self)]
        exact Nat.le_add_right _ _
      rw [List.flatten_cons, List.cons_append, List.mem_cons] at held
      have behind := held.resolve_left fun same => elsewhere (same ▸ List.mem_cons_self)
      have earlier := first id behind
      omega

/-- What holds when the searches from the ids in `passed` are over: they have met the groups in `done`
and not those in `todo`. -/
structure Explored (nodes : List Node) (edges : List Edge) (passed visited : List String)
    (done todo : List (List String)) : Prop where
  groups : idGroups nodes edges = done ++ todo
  distinct : visited.Nodup
  met : SameIds visited done.flatten
  covered : passed ⊆ visited

namespace Explored

variable {passed visited rest : List String} {done todo : List (List String)} {id : String}

theorem not_mem_visited
    (explored : Explored nodes edges passed visited done todo)
    (held : id ∈ todo.flatten) :
    id ∉ visited := by
  intro again
  have whole := nodup_flatten_idGroups nodes edges
  rw [explored.groups, List.flatten_append] at whole
  exact (List.nodup_append.mp whole).2.2 id ((explored.met id).mp again) id held rfl

theorem mem_flatten_todo
    (explored : Explored nodes edges passed visited done todo)
    (known : id ∈ nodes.map Node.id)
    (new : id ∉ visited) :
    id ∈ todo.flatten := by
  have grouped : id ∈ (idGroups nodes edges).flatten := mem_flatten_idGroups.mpr known
  rw [explored.groups, List.flatten_append, List.mem_append] at grouped
  exact grouped.resolve_left fun earlier => new ((explored.met id).mpr earlier)

/-- Once all ids have been gone through, no group is left. -/
theorem todo_eq_nil (explored : Explored nodes edges (nodes.map Node.id) visited done todo) :
    todo = [] := by
  refine List.eq_nil_iff_forall_not_mem.mpr fun group member => ?_
  have known : group ∈ idGroups nodes edges := by
    rw [explored.groups]
    exact List.mem_append_right done member
  obtain ⟨id, held⟩ := List.exists_mem_of_ne_nil group (ne_nil_of_mem_connectedGroups known)
  have fresh := explored.not_mem_visited (List.mem_flatten_of_mem member held)
  exact fresh (explored.covered (mem_flatten_idGroups.mp (List.mem_flatten_of_mem known held)))

/-- An id that has been visited begins no search. -/
theorem pass
    (explored : Explored nodes edges passed visited done todo)
    (again : id ∈ visited) :
    Explored nodes edges (passed ++ [id]) visited done todo where
  groups := explored.groups
  distinct := explored.distinct
  met := explored.met
  covered := List.append_subset.mpr
    ⟨explored.covered, List.cons_subset.mpr ⟨again, List.nil_subset _⟩⟩

/-- No walk leads out of what has been visited. -/
theorem encloses_visited (explored : Explored nodes edges passed visited done todo) :
    (resolvedNeighbors nodes edges).Encloses visited := by
  intro other member next adjacent
  rw [explored.met] at member ⊢
  refine encloses_flatten ?_ other member next adjacent
  rw [explored.groups]
  exact List.subset_append_left done todo

/-- An id that has not been visited, behind those that have been gone through, is in the next
group. -/
theorem mem_next_group
    {group : List String} {later : List (List String)}
    (explored : Explored nodes edges passed visited done (group :: later))
    (split : nodes.map Node.id = passed ++ id :: rest)
    (new : id ∉ visited)
    (held : id ∈ (group :: later).flatten) :
    id ∈ group := by
  have led := led_connectedGroups (nodes.map Node.id) (resolvedEdges nodes edges)
  change Led _ (idGroups nodes edges) at led
  rw [explored.groups] at led
  have free : ∀ other ∈ group, other ∉ passed := by
    intro other otherHeld earlier
    have fresh := explored.not_mem_visited (List.mem_flatten_of_mem List.mem_cons_self otherHeld)
    exact fresh (explored.covered earlier)
  exact led.of_append.mem_head split (fun earlier => new (explored.covered earlier)) free held

/-- The search from an id that has not been visited meets the next group. -/
theorem search
    (explored : Explored nodes edges passed visited done todo)
    (split : nodes.map Node.id = passed ++ id :: rest)
    (new : id ∉ visited) :
    let search := (Exploration.start visited id).after (resolvedNeighbors nodes edges)
      (nodes.map Node.id).length
    ∃ group later, todo = group :: later ∧ SameIds search.members group ∧
      Explored nodes edges (passed ++ [id]) search.visited (done ++ [group]) later := by
  intro search
  have known : id ∈ nodes.map Node.id := by
    rw [split]
    exact List.mem_append_right passed List.mem_cons_self
  have held := explored.mem_flatten_todo known new
  cases todo with
  | nil =>
      cases held
  | cons group later =>
      have member : group ∈ idGroups nodes edges := by
        rw [explored.groups]
        exact List.mem_append_right done List.mem_cons_self
      have begun := explored.mem_next_group split new held
      have sound : Exploration.Sound (resolvedNeighbors nodes edges) visited id [] search :=
        (Exploration.sound_start explored.distinct new).after _
      have empty : search.stack = [] :=
        Exploration.stack_after explored.distinct new (encloses_ids nodes edges) known
      have same : SameIds search.members group := by
        intro other
        rw [sound.mem_members_iff empty (Neighbors.symmetric_ofEdges _) explored.encloses_visited,
          Neighbors.joins_ofEdges, mem_group_iff_joined member begun]
      have met : ∀ other, other ∈ search.visited ↔ other ∈ group ∨ other ∈ visited := by
        intro other
        rw [sound.met.mem_iff, empty, List.append_nil, List.mem_append, same other]
      refine ⟨group, later, rfl, same, ?_, sound.once, fun other => ?_, ?_⟩
      · rw [explored.groups, List.append_assoc, List.singleton_append]
      · rw [met, explored.met other, List.flatten_append, List.mem_append, List.flatten_singleton,
          or_comm]
      · intro other earlier
        rw [met]
        rcases List.mem_append.mp earlier with before | here
        · exact .inr (explored.covered before)
        · exact .inl (List.mem_singleton.mp here ▸ begun)

/-- The searches that are left meet the groups that are left, one each. -/
theorem forall₂_searchedGroups
    (explored : Explored nodes edges passed visited done todo)
    (split : nodes.map Node.id = passed ++ rest) :
    List.Forall₂ SameIds
      (searchedGroups (resolvedNeighbors nodes edges) (nodes.map Node.id).length visited rest)
      todo := by
  induction rest generalizing passed visited done todo with
  | nil =>
      rw [List.append_nil] at split
      rw [← split] at explored
      rw [explored.todo_eq_nil]
      exact List.Forall₂.nil
  | cons id rest inner =>
      have splitBehind : nodes.map Node.id = (passed ++ [id]) ++ rest := by
        rw [split, List.append_assoc, List.singleton_append]
      by_cases again : id ∈ visited
      · rw [searchedGroups, if_pos again]
        exact inner (explored.pass again) splitBehind
      · rw [searchedGroups, if_neg again]
        obtain ⟨group, later, rfl, same, exploredBehind⟩ := explored.search split again
        exact List.Forall₂.cons same (inner exploredBehind splitBehind)

end Explored

/-- A component depends on which ids are in its group, and not on their order. -/
theorem groupComponent_congr {left right : List String} (same : SameIds left right) :
    groupComponent nodes edges left = groupComponent nodes edges right := by
  have contained : left.contains = right.contains := by
    funext id
    rw [Bool.eq_iff_iff, List.contains_iff_mem, List.contains_iff_mem, same id]
  rw [groupComponent, groupComponent, contained]

/-- The components that searches find are those that the connected groups make. -/
theorem connectedComponents_eq (nodes : List Node) (edges : List Edge) :
    connectedComponents nodes edges =
      (idGroups nodes edges).map (groupComponent nodes edges) := by
  have explored : Explored nodes edges [] [] [] (idGroups nodes edges) :=
    ⟨rfl, List.nodup_nil, fun _ => Iff.rfl, List.Subset.refl []⟩
  have agree := explored.forall₂_searchedGroups (List.nil_append _).symm
  rw [← List.forall₂_eq_eq_eq, connectedComponents, List.forall₂_map_left_iff,
    List.forall₂_map_right_iff]
  exact agree.imp fun _ _ same => groupComponent_congr same

end TypeGraph
