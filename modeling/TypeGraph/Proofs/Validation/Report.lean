import TypeGraph.Compiler
import TypeGraph.Proofs.Graph.Meaning
import TypeGraph.Proofs.Graph.Search

/-!
# Graphs without problems

If nothing is reported of a graph, then its resolved edges are acyclic, all of its operations are
registered, and no slot has two edges.
-/

namespace TypeGraph

/-- Whether an edge leads to a slot of a node. -/
def Edge.leadsTo (edge : Edge) (key : String × String) : Bool :=
  (edge.target, edge.targetSlot) == key

namespace Validation

theorem fanIn_append (edges : List Edge) (edge : Edge) :
    fanIn (edges ++ [edge]) =
      (fanIn edges).insert (edge.target, edge.targetSlot)
        (((fanIn edges).get? (edge.target, edge.targetSlot)).getD 0 + 1) := by
  simp [fanIn]

/-- Each slot is counted as often as edges lead to it. -/
theorem get?_fanIn (edges : List Edge) (key : String × String) :
    ((fanIn edges).get? key).getD 0 = edges.countP fun edge => edge.leadsTo key := by
  induction edges using List.reverseRecOn with
  | nil =>
      rfl
  | append_singleton edges edge inner =>
      rw [fanIn_append, OrderedMap.get?_insert, List.countP_append, ← inner]
      by_cases leads : (edge.target, edge.targetSlot) = key
      · simp [Edge.leadsTo, leads]
      · simp [Edge.leadsTo, leads]

/-- A slot with several edges is reported. -/
theorem crowdedInputs_ne_nil
    {edges : List Edge} {key : String × String}
    (several : 2 ≤ edges.countP fun edge => edge.leadsTo key)
    (registry : Registry) (graph : Graph) :
    crowdedInputs registry graph edges ≠ [] := by
  rw [← get?_fanIn] at several
  cases counted : (fanIn edges).get? key with
  | none =>
      rw [counted] at several
      exact absurd several (by decide)
  | some count =>
      rw [counted, Option.getD_some] at several
      have entry : (key, count) ∈ (fanIn edges).entries :=
        ((fanIn edges).get?_eq_some_iff key count).mp counted
      have kept : (key, count) ∈ (fanIn edges).entries.filter fun entry => 2 ≤ entry.2 :=
        List.mem_filter.mpr ⟨entry, decide_eq_true several⟩
      exact List.ne_nil_of_mem (List.mem_map_of_mem kept)

end Validation

theorem resolvedEdges_resolvedEdges (nodes : List Node) (edges : List Edge) :
    resolvedEdges nodes (resolvedEdges nodes edges) = resolvedEdges nodes edges := by
  rw [resolvedEdges, List.filter_eq_self]
  exact fun edge member => (List.mem_filter.mp member).2

/-- What can be relied on in a graph of which nothing is reported. -/
structure Graph.Flawless (graph : Graph) (registry : Registry) : Prop where
  acyclic : Acyclic (links graph.nodes graph.edges)
  registered : ∀ node ∈ graph.nodes, ∃ signature, registry.get? node.operation = some signature
  single : ∀ edge ∈ graph.resolved,
    lastEdgeInto? graph.resolved edge.target edge.targetSlot = some edge

/-- An edge is the last one into its slot if it is the only one. -/
theorem lastEdgeInto?_of_countP_le_one
    {edges : List Edge} {edge : Edge}
    (member : edge ∈ edges)
    (single : (edges.countP fun other => other.leadsTo (edge.target, edge.targetSlot)) ≤ 1) :
    lastEdgeInto? edges edge.target edge.targetSlot = some edge := by
  have same : (fun other : Edge =>
        other.target == edge.target && other.targetSlot == edge.targetSlot) =
      fun other => other.leadsTo (edge.target, edge.targetSlot) := by
    funext other
    rw [Edge.leadsTo, Bool.eq_iff_iff, Bool.and_eq_true, beq_iff_eq, beq_iff_eq, beq_iff_eq,
      Prod.mk.injEq]
  rw [lastEdgeInto?, same]
  rw [List.countP_eq_length_filter] at single
  have kept : edge ∈ edges.filter fun other => other.leadsTo (edge.target, edge.targetSlot) :=
    List.mem_filter.mpr ⟨member, beq_self_eq_true _⟩
  obtain ⟨only, equality⟩ := List.length_eq_one_iff.mp
    (Nat.le_antisymm single (List.length_pos_of_mem kept))
  rw [equality] at kept ⊢
  rw [List.mem_singleton.mp kept]
  rfl

namespace Compiler

theorem flawless_of_problems_eq_nil
    {compiler : Compiler} {graph : Graph}
    (nothing : compiler.problems graph = []) :
    graph.Flawless compiler.registry := by
  rw [problems, Validation.problems] at nothing
  rw [List.append_eq_nil_iff, List.append_eq_nil_iff, List.append_eq_nil_iff] at nothing
  obtain ⟨⟨⟨noCycle, noNodeProblem⟩, notCrowded⟩, _⟩ := nothing
  constructor
  · have searched : hasCycle graph.nodes graph.resolved = false := by
      by_contra cyclic
      rw [Bool.not_eq_false] at cyclic
      rw [← Graph.resolved, if_pos cyclic] at noCycle
      cases noCycle
    have acyclic := acyclic_links_of_hasCycle_eq_false searched
    rwa [links, Graph.resolved, resolvedEdges_resolvedEdges] at acyclic
  · intro node member
    cases found : compiler.registry.get? node.operation with
    | some signature =>
        exact ⟨signature, rfl⟩
    | none =>
        have reported := List.flatMap_eq_nil_iff.mp noNodeProblem node member
        rw [Validation.nodeProblems, found] at reported
        cases reported
  · intro edge member
    refine lastEdgeInto?_of_countP_le_one member ?_
    by_contra several
    exact Validation.crowdedInputs_ne_nil (Nat.lt_of_not_le several) _ _ notCrowded

end Compiler

end TypeGraph
