import Mathlib.Data.List.Forall2
import TypeGraph.Compiler
import TypeGraph.Proofs.Naming.Table
import TypeGraph.Proofs.Plan.Component

/-!
# Plans of a graph

A compilation has one plan for each component, in the order of the components, and all of them use
one table of names in which every node of the graph has a name.
-/

namespace TypeGraph

theorem forall₂_mapIdx {α β : Type} {related : α → β → Prop} {items : List α} {image : Nat → α → β}
    (each : ∀ item ∈ items, ∀ place, related item (image place item)) :
    List.Forall₂ related items (items.mapIdx image) := by
  induction items generalizing image with
  | nil =>
      exact List.Forall₂.nil
  | cons item rest inner =>
      rw [List.mapIdx_cons]
      refine List.Forall₂.cons (each item List.mem_cons_self 0) (inner ?_)
      exact fun later member place => each later (List.mem_cons_of_mem _ member) (place + 1)

namespace Compiler

/-- The alias of the whole result and the names of ids that a compilation uses. -/
def graphNaming (compiler : Compiler) (graph : Graph) (wish : String) : String × NameTable :=
  naming compiler.options (compiler.imports graph.nodes)
    (connectedComponents graph.nodes graph.edges).length wish (graph.nodes.map Node.id)

/-- The table of names that a compilation uses. -/
def names (compiler : Compiler) (graph : Graph) (wish : String) : NameTable :=
  (compiler.graphNaming graph wish).2

variable {compiler : Compiler} {graph : Graph} {wish : String}

theorem compile_of_empty (empty : graph.nodes = []) :
    compiler.compile graph wish = ⟨[], [], "", Source.placeholder⟩ :=
  if_pos (List.isEmpty_iff.mpr empty)

theorem compile_of_occupied (occupied : graph.nodes ≠ []) :
    (compiler.compile graph wish).imports = compiler.imports graph.nodes ∧
      (compiler.compile graph wish).resultAlias = (compiler.graphNaming graph wish).1 ∧
      (compiler.compile graph wish).components =
        (connectedComponents graph.nodes graph.edges).mapIdx
          (Component.plan compiler.registry compiler.options (compiler.names graph wish)) := by
  have notEmpty : ¬ graph.isEmpty := fun empty => occupied (List.isEmpty_iff.mp empty)
  rw [compile, if_neg notEmpty, names, graphNaming]
  dsimp only
  -- Nothing below depends on how the names are found.
  generalize naming compiler.options (compiler.imports graph.nodes)
    (connectedComponents graph.nodes graph.edges).length wish (graph.nodes.map Node.id) = named
  exact ⟨rfl, rfl, rfl⟩

theorem components_compile (compiler : Compiler) (graph : Graph) (wish : String) :
    (compiler.compile graph wish).components =
      (connectedComponents graph.nodes graph.edges).mapIdx
        (Component.plan compiler.registry compiler.options (compiler.names graph wish)) := by
  by_cases occupied : graph.nodes = []
  · have none : connectedComponents graph.nodes graph.edges = [] := by
      apply List.eq_nil_iff_forall_not_mem.mpr
      intro component member
      obtain ⟨node, nodeMember⟩ := List.exists_mem_of_ne_nil _ (nodes_ne_nil_of_mem member)
      have inGraph := ((isPart_of_mem member).mem_nodes_iff.mp nodeMember).1
      rw [occupied] at inGraph
      cases inGraph
    rw [compile_of_empty occupied, none, List.mapIdx_nil]
  · exact (compile_of_occupied occupied).2.2

theorem mem_components_compile {plan : ComponentPlan} :
    plan ∈ (compiler.compile graph wish).components ↔
      ∃ (place : Nat) (component : Component),
        (connectedComponents graph.nodes graph.edges)[place]? = some component ∧
          component.plan compiler.registry compiler.options (compiler.names graph wish) place =
            plan := by
  rw [components_compile, List.mem_mapIdx]
  constructor
  · rintro ⟨place, inside, equality⟩
    exact ⟨place, _, List.getElem?_eq_getElem inside, equality⟩
  · rintro ⟨place, component, stands, equality⟩
    obtain ⟨inside, rfl⟩ := List.getElem?_eq_some_iff.mp stands
    exact ⟨place, inside, equality⟩

/-- Every node of the graph has a name. -/
theorem exists_name
    (compiler : Compiler) (wish : String)
    {id : String}
    (present : id ∈ graph.nodes.map Node.id) :
    ∃ name, (compiler.names graph wish).bindings.get? id = some name :=
  NameTable.exists_get?_assignAll _ present

/-- The name of a node is the one that the table gives it. -/
theorem get?_names
    (compiler : Compiler) (wish : String)
    {id : String}
    (present : id ∈ graph.nodes.map Node.id) :
    (compiler.names graph wish).bindings.get? id =
      some ((compiler.names graph wish).binding id) := by
  obtain ⟨name, bound⟩ := exists_name compiler wish present
  rw [NameTable.binding_eq bound, bound]

/-- A plan shows the type text of its node's operation. -/
theorem typeText_planNode
    (compiler : Compiler) (names : NameTable) (component : Component) (node : Node) :
    (component.planNode compiler.registry names node).typeText =
      compiler.typeText node.operation := by
  change (compiler.registry.resolve _ _ _).typeText = _
  rw [Registry.resolve, typeText]
  cases compiler.registry.get? node.operation with
  | none =>
      rfl
  | some signature =>
      rfl

end Compiler

end TypeGraph
