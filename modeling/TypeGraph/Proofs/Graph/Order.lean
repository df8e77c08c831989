import TypeGraph.Proofs.Graph.Sorting

/-!
# Nodes in topological order

Where ids are pairwise distinct and resolved edges are acyclic, the topological order lists every
node once, behind all nodes that resolved edges lead to it from. Nodes that no edge leads to are
listed on every graph.
-/

namespace TypeGraph

/-- The places of the nodes in topological order. -/
def placeOrder (nodes : List Node) (edges : List Edge) : List Nat :=
  (Sorting.after (arcs nodes edges) nodes.length nodes.length).order

variable {nodes : List Node} {edges : List Edge}

theorem topologicalOrder_eq (nodes : List Node) (edges : List Edge) :
    topologicalOrder nodes edges = (placeOrder nodes edges).filterMap (nodes[·]?) :=
  rfl

theorem mem_of_mem_topologicalOrder {node : Node} (member : node ∈ topologicalOrder nodes edges) :
    node ∈ nodes := by
  obtain ⟨place, _, stands⟩ := List.mem_filterMap.mp member
  exact List.mem_of_getElem? stands

theorem sound_placeOrder (nodes : List Node) (edges : List Edge) :
    Sorting.Sound (arcs nodes edges) nodes.length []
      (Sorting.after (arcs nodes edges) nodes.length nodes.length) :=
  Sorting.sound_after (fun _ _ arc => (lt_length_of_mem_arcs arc).2) nodes.length

theorem lt_length_of_mem_placeOrder {place : Nat} (member : place ∈ placeOrder nodes edges) :
    place < nodes.length :=
  (((sound_placeOrder nodes edges).ready place).mp (List.mem_append_left _ member)).1

theorem placeOrder_nodup (nodes : List Node) (edges : List Edge) :
    (placeOrder nodes edges).Nodup :=
  (List.nodup_append.mp (sound_placeOrder nodes edges).distinct).1

theorem queue_placeOrder (nodes : List Node) (edges : List Edge) :
    (Sorting.after (arcs nodes edges) nodes.length nodes.length).queue = [] :=
  Sorting.queue_after fun _ _ arc => (lt_length_of_mem_arcs arc).2

/-- The order leaves out exactly the places behind a cycle. -/
theorem mem_placeOrder_iff {place : Nat} :
    place ∈ placeOrder nodes edges ↔
      place < nodes.length ∧ ¬ BehindCycle (arcs nodes edges) place := by
  constructor
  · intro listed
    have sequenced := (sound_placeOrder nodes edges).sequenced
    exact ⟨lt_length_of_mem_placeOrder listed,
      sequenced.not_behindCycle (placeOrder_nodup nodes edges) listed⟩
  · rintro ⟨inside, free⟩
    exact Sorting.mem_order_after (fun _ _ => lt_length_of_mem_arcs) inside free

/-- A node that no edge leads to is ordered, on cyclic graphs too. -/
theorem mem_topologicalOrder_of_mem_entryNodes
    {node : Node}
    (entry : node ∈ entryNodes nodes edges) :
    node ∈ topologicalOrder nodes edges := by
  have ⟨member, unreached⟩ := List.mem_filter.mp entry
  rw [Bool.not_eq_true', List.any_eq_false] at unreached
  obtain ⟨place, inside, stands⟩ := List.mem_iff_getElem.mp member
  have found : nodes[place]? = some node := List.getElem?_eq_some_iff.mpr ⟨inside, stands⟩
  have untouched : ∀ source, ¬ Leads (arcs nodes edges) source place := by
    intro source arc
    obtain ⟨edge, edgeMember, _, target⟩ := mem_arcs_iff.mp arc
    obtain ⟨other, otherFound, sameId⟩ := exists_getElem?_of_positionOf? target
    have same : node = other := Option.some.inj (found.symm.trans otherFound)
    have leads : edge.target = node.id := by
      rw [same, sameId]
    exact unreached edge edgeMember (beq_iff_eq.mpr leads)
  have free : ¬ BehindCycle (arcs nodes edges) place := by
    intro behind
    obtain ⟨source, arc⟩ := behind.exists_leads
    exact untouched source arc
  exact List.mem_filterMap.mpr ⟨place, mem_placeOrder_iff.mpr ⟨inside, free⟩, found⟩

/-- Where resolved edges are acyclic, all places are in the order. -/
theorem placeOrder_perm (acyclic : Acyclic (links nodes edges)) :
    (placeOrder nodes edges).Perm (List.range nodes.length) := by
  refine (List.perm_ext_iff_of_nodup (placeOrder_nodup nodes edges) List.nodup_range).mpr ?_
  intro place
  have free : ¬ BehindCycle (arcs nodes edges) place := by
    rintro ⟨origin, cycle, _⟩
    exact acyclic_arcs_iff.mpr acyclic origin cycle
  rw [mem_placeOrder_iff, List.mem_range, and_iff_left free]

theorem filterMap_getElem?_range {α : Type} (items : List α) :
    (List.range items.length).filterMap (items[·]?) = items := by
  induction items with
  | nil =>
      rfl
  | cons item rest inner =>
      rw [List.length_cons, List.range_succ_eq_map, List.filterMap_cons, List.filterMap_map]
      simpa [Function.comp_def] using inner

theorem topologicalOrder_perm (acyclic : Acyclic (links nodes edges)) :
    (topologicalOrder nodes edges).Perm nodes := by
  have ordered := (placeOrder_perm acyclic).filterMap (nodes[·]?)
  rwa [filterMap_getElem?_range] at ordered

/-- A resolved edge leads from an earlier node. -/
theorem mem_before_of_edge
    (distinct : (nodes.map Node.id).Nodup)
    {before after : List Node} {node : Node}
    (split : topologicalOrder nodes edges = before ++ node :: after)
    {edge : Edge}
    (resolved : edge ∈ resolvedEdges nodes edges)
    (leads : edge.target = node.id) :
    ∃ source ∈ before, source.id = edge.source := by
  obtain ⟨member, sourcePresent, _⟩ := mem_resolvedEdges.mp resolved
  rw [topologicalOrder_eq] at split
  obtain ⟨first, second, splitPlaces, firstShape, secondShape⟩ :=
    List.filterMap_eq_append_iff.mp split
  obtain ⟨skipped, place, rest, secondSplit, skippedMissing, stands, _⟩ :=
    List.filterMap_eq_cons_iff.mp secondShape
  obtain ⟨sourcePlace, sourceFound⟩ := exists_positionOf? sourcePresent
  have nodeFound : positionOf? nodes edge.target = some place :=
    leads ▸ positionOf?_of_getElem? distinct stands
  have arc : Leads (arcs nodes edges) sourcePlace place :=
    mem_arcs_iff.mpr ⟨edge, member, sourceFound, nodeFound⟩
  have ordered : placeOrder nodes edges = (first ++ skipped) ++ place :: rest := by
    rw [splitPlaces, secondSplit, List.append_assoc]
  obtain ⟨source, sourceStands, sameId⟩ := exists_getElem?_of_positionOf? sourceFound
  refine ⟨source, ?_, sameId⟩
  have earlier := (sound_placeOrder nodes edges).sequenced _ _ _ ordered sourcePlace arc
  rcases List.mem_append.mp earlier with inFirst | inSkipped
  · rw [← firstShape]
    exact List.mem_filterMap.mpr ⟨sourcePlace, inFirst, sourceStands⟩
  · rw [skippedMissing sourcePlace inSkipped] at sourceStands
    cases sourceStands

end TypeGraph
