import TypeGraph.Proofs.Compiler.Dataflow
import TypeGraph.Proofs.Validation.Report

/-!
# What an empty report is worth

If nothing is reported of a graph, then its compilation has a step for each node. A node takes the
step of the first node with its id, and no report tells of a second one. The steps can be trusted,
each with the type text of its own node and a name of its own, if and only if no id is repeated.
-/

namespace TypeGraph

/-- Whether each node has a step with the type text of its own operation, and no two steps declare
one name. -/
structure Compilation.Trustworthy (compiler : Compiler) (graph : Graph)
    (compilation : Compilation) : Prop where
  own : (compilation.steps.map fun step => (step.id, step.typeText)).Perm
    (graph.nodes.map fun node => (node.id, compiler.typeText node.operation))
  apart : (compilation.steps.map fun step => (Source.step compiler.options step).name).Nodup

namespace Compiler

variable {compiler : Compiler} {graph : Graph} {wish : String}

def shown (step : NodePlan) : String × String × String :=
  (step.id, step.binding, step.typeText)

theorem shown_step_firstLike (compiler : Compiler) (graph : Graph) (names : NameTable) (node : Node) :
    shown (graph.step compiler.registry names (graph.firstLike node)) =
      (node.id, names.binding node.id, compiler.typeText (graph.firstLike node).operation) := by
  rw [shown, Component.planNode_id, Component.planNode_binding, Graph.id_firstLike,
    typeText_planNode]

/-- Where nothing waits for ever, each node has the step of the first node with its id. -/
theorem shown_steps_perm
    (acyclic : Acyclic (links graph.nodes graph.edges))
    (compiler : Compiler) (wish : String) :
    ((compiler.compile graph wish).steps.map shown).Perm
      (graph.nodes.map fun node =>
        (node.id, (compiler.names graph wish).binding node.id,
          compiler.typeText (graph.firstLike node).operation)) := by
  rw [steps_compile_firsts, List.map_map]
  have each : ∀ node ∈ orderedNodes graph,
      (shown ∘ fun node => graph.step compiler.registry (compiler.names graph wish)
          (graph.firstLike node)) node =
        (node.id, (compiler.names graph wish).binding node.id,
          compiler.typeText (graph.firstLike node).operation) :=
    fun node _ => shown_step_firstLike compiler graph _ node
  rw [List.map_congr_left each]
  exact (orderedNodes_perm acyclic).map _

theorem names_steps_perm
    (acyclic : Acyclic (links graph.nodes graph.edges))
    (compiler : Compiler) (wish : String) :
    ((compiler.compile graph wish).steps.map NodePlan.binding).Perm
      ((graph.nodes.map Node.id).map (compiler.names graph wish).binding) := by
  have named := (shown_steps_perm acyclic compiler wish).map fun parts => parts.2.1
  rw [List.map_map, List.map_map] at named
  rw [List.map_map]
  exact named

/-- The steps can be trusted if and only if no id is repeated. -/
theorem trustworthy_iff (acyclic : Acyclic (links graph.nodes graph.edges)) :
    (compiler.compile graph wish).Trustworthy compiler graph ↔
      (graph.nodes.map Node.id).Nodup := by
  constructor
  · intro trustworthy
    have apart : ((compiler.compile graph wish).steps.map NodePlan.binding).Nodup :=
      trustworthy.apart
    exact ((names_steps_perm acyclic compiler wish).nodup_iff.mp apart).of_map _
  · intro distinct
    have own := (shown_steps_perm acyclic compiler wish).map fun parts => (parts.1, parts.2.2)
    rw [List.map_map, List.map_map] at own
    constructor
    · have each : ∀ node ∈ graph.nodes,
          (node.id, compiler.typeText (graph.firstLike node).operation) =
            (node.id, compiler.typeText node.operation) :=
        fun node member => by rw [Graph.firstLike_of_mem distinct member]
      rw [← List.map_congr_left each]
      exact own
    · have apart := nodup_bindings compiler wish distinct (List.Subset.refl graph.nodes)
      have named := names_steps_perm acyclic compiler wish
      rw [List.map_map] at named
      exact named.nodup_iff.mpr apart

/-- Where nothing is reported, the steps are those of the first nodes with the ids of all nodes, and
they can be trusted exactly if ids are pairwise distinct. -/
theorem trustworthy_iff_distinct
    (compiler : Compiler) (graph : Graph) (wish : String)
    (nothing : compiler.problems graph = []) :
    ((compiler.compile graph wish).steps.map fun step =>
        (step.id, step.binding, step.typeText)).Perm
      (graph.nodes.map fun node =>
        (node.id, (compiler.names graph wish).binding node.id,
          compiler.typeText (graph.firstLike node).operation)) ∧
    ((compiler.compile graph wish).Trustworthy compiler graph ↔
      (graph.nodes.map Node.id).Nodup) := by
  have acyclic := (flawless_of_problems_eq_nil nothing).acyclic
  exact ⟨shown_steps_perm acyclic compiler wish, trustworthy_iff acyclic⟩

def twins : Graph where
  nodes := [.ofOperation "a" "Strings.Trim", .ofOperation "a" "Strings.Uppercase"]
  edges := []

theorem problems_twins : standard.problems twins = [] :=
  rfl

theorem trustworthy_iff_distinct_twins :
    ((standard.compile twins "").steps.map fun step =>
        (step.id, step.binding, step.typeText)).Perm
      (twins.nodes.map fun node =>
        (node.id, (standard.names twins "").binding node.id,
          standard.typeText (twins.firstLike node).operation)) ∧
    ((standard.compile twins "").Trustworthy standard twins ↔
      (twins.nodes.map Node.id).Nodup) :=
  trustworthy_iff_distinct standard twins "" problems_twins

/-- Nothing is reported of the twins, and they declare one name with one type text. -/
theorem trust_misplaced :
    ¬ ∀ (compiler : Compiler) (graph : Graph) (wish : String),
      compiler.options = .standard → compiler.problems graph = [] →
        (compiler.compile graph wish).Trustworthy compiler graph := by
  intro trusted
  have acyclic := (flawless_of_problems_eq_nil problems_twins).acyclic
  have distinct := (trustworthy_iff acyclic).mp (trusted standard twins "" rfl problems_twins)
  exact absurd distinct (by decide)

end Compiler

end TypeGraph
