import TypeGraph.Proofs.Graph.Analysis
import TypeGraph.Proofs.Validation.Report

/-!
# Edges with an end missing

An edge of which an end is missing is reported, and that is all that it does. Whether it stands
among the edges or not, the graph has the same cycles, the same order and the same components, is
compiled to the same text, and is reported to have the same other problems.
-/

namespace TypeGraph

namespace Graph

/-- The graph without the edges of which an end is missing. -/
def trimmed (graph : Graph) : Graph :=
  ⟨graph.nodes, graph.resolved⟩

/-- The ids at ends of edges that no node has, each with the id of its edge. -/
def missingEnds (graph : Graph) : List (String × String) :=
  graph.edges.flatMap fun edge =>
    ([edge.source, edge.target].filter (· ∉ graph.nodes.map Node.id)).map fun id => (edge.id, id)

/-- An edge may lack both ends. -/
example : missingEnds ⟨[.ofOperation "a" "X"], [.between "e" "b" "b", .between "f" "b" "a"]⟩ =
    [("e", "b"), ("e", "b"), ("f", "b")] := by
  decide

end Graph

/-! ## Resolved edges of resolved edges -/

section Resolved

variable (nodes : List Node) (edges : List Edge)

theorem arcs_resolvedEdges : arcs nodes (resolvedEdges nodes edges) = arcs nodes edges :=
  (arcs_eq_filterMap_resolvedEdges nodes edges).symm

theorem hasCycle_resolvedEdges :
    hasCycle nodes (resolvedEdges nodes edges) = hasCycle nodes edges := by
  rw [hasCycle, arcs_resolvedEdges, hasCycle]

theorem topologicalOrder_resolvedEdges :
    topologicalOrder nodes (resolvedEdges nodes edges) = topologicalOrder nodes edges := by
  rw [topologicalOrder, arcs_resolvedEdges, topologicalOrder]

theorem connectedComponents_resolvedEdges :
    connectedComponents nodes (resolvedEdges nodes edges) = connectedComponents nodes edges := by
  rw [connectedComponents, resolvedEdges_resolvedEdges, connectedComponents]

/-- No resolved edge is dangling. -/
theorem danglingEdges_resolvedEdges : danglingEdges nodes (resolvedEdges nodes edges) = [] := by
  apply List.filter_eq_nil_iff.mpr
  intro edge member
  have resolved : edge.isResolved nodes = true := (List.mem_filter.mp member).2
  simp [resolved]

/-- What resolved edges do not have is found among the dangling edges. -/
theorem flatMap_danglingEdges
    {α : Type} {parts : Edge → List α}
    (none : ∀ edge : Edge, edge.isResolved nodes → parts edge = []) :
    (danglingEdges nodes edges).flatMap parts = edges.flatMap parts := by
  rw [danglingEdges]
  induction edges with
  | nil =>
      rfl
  | cons edge rest inner =>
      by_cases resolved : edge.isResolved nodes
      · simp [resolved, none edge resolved, inner]
      · simp [resolved, inner]

end Resolved

/-! ## Reports -/

namespace Validation

theorem missingNodes_eq (graph : Graph) :
    missingNodes graph = graph.missingEnds.map fun missing => .missingNode missing.1 missing.2 := by
  rw [missingNodes, flatMap_danglingEdges, Graph.missingEnds, List.map_flatMap]
  · apply List.flatMap_congr
    intro edge _
    have absent : ∀ id, (!hasNode graph.nodes id) = decide (id ∉ graph.nodes.map Node.id) := by
      intro id
      rw [Bool.eq_iff_iff, Bool.not_eq_true', Bool.eq_false_iff, decide_eq_true_iff, ne_eq,
        hasNode_iff]
    simp only [absent, List.map_map]
    rfl
  · intro edge resolved
    rw [Edge.isResolved, Bool.and_eq_true] at resolved
    simp [resolved]

theorem missingNodes_trimmed (graph : Graph) : missingNodes graph.trimmed = [] := by
  have none : danglingEdges graph.trimmed.nodes graph.trimmed.edges = [] :=
    danglingEdges_resolvedEdges graph.nodes graph.edges
  rw [missingNodes, none, List.flatMap_nil]

end Validation

namespace Compiler

theorem compile_trimmed (compiler : Compiler) (graph : Graph) (wish : String) :
    compiler.compile graph.trimmed wish = compiler.compile graph wish := by
  have components : connectedComponents graph.trimmed.nodes graph.trimmed.edges =
      connectedComponents graph.nodes graph.edges :=
    connectedComponents_resolvedEdges graph.nodes graph.edges
  rw [compile, compile, components]
  rfl

/-- All problems but the missing ends themselves are found by the resolved edges. -/
theorem problems_trimmed (compiler : Compiler) (graph : Graph) :
    compiler.problems graph =
      compiler.problems graph.trimmed ++ Validation.missingNodes graph := by
  have resolved : resolvedEdges graph.trimmed.nodes graph.trimmed.edges =
      resolvedEdges graph.nodes graph.edges :=
    resolvedEdges_resolvedEdges graph.nodes graph.edges
  rw [problems, problems, Validation.problems, Validation.problems, resolved,
    Validation.missingNodes_trimmed, List.append_nil]
  rfl

/-- Edges with an end missing are inert. Without them, a graph is compiled to the same, has the same
cycles and the same order, and only the reports of missing ends are left out at the end. -/
theorem dangling_edges_inert (compiler : Compiler) (graph : Graph) (wish : String) :
    compiler.compile graph wish = compiler.compile graph.trimmed wish ∧
      hasCycle graph.nodes graph.edges = hasCycle graph.trimmed.nodes graph.trimmed.edges ∧
      topologicalOrder graph.nodes graph.edges =
        topologicalOrder graph.trimmed.nodes graph.trimmed.edges ∧
      compiler.problems graph =
        compiler.problems graph.trimmed ++
          graph.missingEnds.map (fun missing => .missingNode missing.1 missing.2) ∧
      (compiler.problems graph).map Problem.message =
        (compiler.problems graph.trimmed).map Problem.message ++
          graph.missingEnds.map fun missing =>
            "Connection \"" ++ missing.1 ++ "\" references missing node \""
              ++ missing.2 ++ "\"" := by
  have reported := problems_trimmed compiler graph
  rw [Validation.missingNodes_eq] at reported
  refine ⟨(compile_trimmed compiler graph wish).symm,
    (hasCycle_resolvedEdges graph.nodes graph.edges).symm,
    (topologicalOrder_resolvedEdges graph.nodes graph.edges).symm, reported, ?_⟩
  rw [reported, List.map_append, List.map_map]
  rfl

end Compiler

end TypeGraph
