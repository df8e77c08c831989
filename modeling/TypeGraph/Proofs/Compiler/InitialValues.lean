import TypeGraph.Proofs.Compiler.Plans

/-!
# Initial values

A value that a plan shows among the initial values is one that a step of the plan binds, and the
other way round. Steps are left out of a plan where nodes wait for ever, but only nodes that no edge
leads to have values of their own, and these never wait.
-/

namespace TypeGraph

namespace ComponentPlan

/-- Whether the initial values have a value for a slot of a named node. -/
def Seeds (plan : ComponentPlan) (target : BoundSlot) (value : Json.Value) : Prop :=
  ∃ node ∈ plan.nodes, node.binding = target.binding ∧ (target.slot, value) ∈ node.literalInputs

/-- Whether a step binds a value to a slot of its own name. -/
def Binds (plan : ComponentPlan) (target : BoundSlot) (value : Json.Value) : Prop :=
  ∃ step ∈ plan.steps, step.binding = target.binding ∧
    (target.slot, .literal value) ∈ step.inputs

end ComponentPlan

namespace Component

variable {registry : Registry} {options : Options} {names : NameTable} {place : Nat}
  {component : Component}

/-- Only a node that no edge leads to has values of its own. -/
theorem mem_entryNodes_of_literalInputs
    {node : Node}
    (member : node ∈ component.nodes)
    (seeded : (component.planNode registry names node).literalInputs ≠ []) :
    node ∈ entryNodes component.nodes component.edges := by
  obtain ⟨⟨slot, value⟩, literal⟩ := List.exists_mem_of_ne_nil _ seeded
  have input := NodePlan.mem_literalInputs.mp literal
  obtain ⟨declared, _, _, found⟩ := Node.mem_inputs_plan.mp input
  cases last : lastEdgeInto? component.edges node.id declared.id with
  | some edge =>
      rw [Node.inputSource?_of_edge last] at found
      cases found
  | none =>
      rw [Node.inputSource?_of_no_edge last] at found
      by_cases entry : hasNode (entryNodes component.nodes component.edges) node.id
      · have unreached := (hasNode_entryNodes_iff member).mp entry
        rw [edgesInto, List.filter_eq_nil_iff] at unreached
        apply List.mem_filter.mpr
        rw [Bool.not_eq_true', List.any_eq_false]
        exact ⟨member, unreached⟩
      · rw [if_neg entry] at found
        cases found

/-- A node with values of its own is a step. -/
theorem mem_steps_of_literalInputs
    (distinct : (component.nodes.map Node.id).Nodup)
    {nodePlan : NodePlan}
    (member : nodePlan ∈ (component.plan registry options names place).nodes)
    (seeded : nodePlan.literalInputs ≠ []) :
    nodePlan ∈ (component.plan registry options names place).steps := by
  obtain ⟨node, inside, rfl⟩ := mem_nodes_plan.mp member
  have entry := mem_entryNodes_of_literalInputs inside seeded
  rw [steps_plan distinct]
  exact List.mem_map_of_mem (mem_topologicalOrder_of_mem_entryNodes entry)

theorem seeds_iff_binds
    (distinct : (component.nodes.map Node.id).Nodup)
    (target : BoundSlot) (value : Json.Value) :
    (component.plan registry options names place).Seeds target value ↔
      (component.plan registry options names place).Binds target value := by
  constructor
  · intro ⟨node, member, named, literal⟩
    have seeded : node.literalInputs ≠ [] := List.ne_nil_of_mem literal
    exact ⟨node, mem_steps_of_literalInputs distinct member seeded, named,
      NodePlan.mem_literalInputs.mp literal⟩
  · intro ⟨step, member, named, input⟩
    exact ⟨step, mem_nodes_of_mem_steps member, named, NodePlan.mem_literalInputs.mpr input⟩

end Component

namespace Compiler

/-- Where ids are pairwise distinct, the initial values of each plan are the values that its steps
bind, and no node with such a value is left out of the steps, whatever cycles there are. -/
theorem initial_values_bound
    (compiler : Compiler) (graph : Graph) (wish : String)
    (distinct : (graph.nodes.map Node.id).Nodup) :
    ∀ plan ∈ (compiler.compile graph wish).components,
      (∀ target value, plan.Seeds target value ↔ plan.Binds target value) ∧
        ∀ node ∈ plan.nodes, node.literalInputs ≠ [] → node ∈ plan.steps := by
  intro plan planned
  obtain ⟨place, component, stands, rfl⟩ := mem_components_compile.mp planned
  have part := isPart_of_mem (List.mem_of_getElem? stands)
  have inside := part.distinct_ids distinct
  exact ⟨Component.seeds_iff_binds inside,
    fun node member seeded => Component.mem_steps_of_literalInputs inside member seeded⟩

/-- A node with a value in front of two that wait for each other. -/
def tangled : Graph where
  nodes := [.ofOperation "b" "Strings.Trim",
    (Node.ofOperation "a" "Strings.Trim").withInputValue "in" (.string "x"),
    .ofOperation "c" "Strings.Trim"]
  edges := [.between "e1" "a" "b", .between "e2" "b" "c", .between "e3" "c" "b"]

theorem initial_values_bound_tangled :
    hasCycle tangled.nodes tangled.edges ∧
      (tangled.nodes.map Node.id).Nodup ∧
        ∀ plan ∈ (standard.compile tangled "").components,
          (∀ target value, plan.Seeds target value ↔ plan.Binds target value) ∧
            ∀ node ∈ plan.nodes, node.literalInputs ≠ [] → node ∈ plan.steps :=
  ⟨rfl, by decide, initial_values_bound standard tangled "" (by decide)⟩

end Compiler

end TypeGraph
