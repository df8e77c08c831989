import TypeGraph.Proofs.Compiler.Plans

/-!
# Hygiene of names

The names that a compilation gives to nodes and to the whole result are identifiers, differ from
each other and from everything else that the emitted file declares, imports or reserves. Whatever a
plan mentions is mentioned by the name of its own node.
-/

namespace TypeGraph

/-! ## Aliases of components -/

section Aliases

variable (options : Options)

theorem componentAlias_injective : Function.Injective options.componentAlias := by
  intro left right equality
  have numbers : left + 1 = right + 1 :=
    NameTable.numbered_injective options.componentStem equality
  exact Nat.succ.inj numbers

theorem componentResultAlias_injective : Function.Injective options.componentResultAlias := by
  intro left right equality
  exact componentAlias_injective options ((String.append_left_inj "_Result").mp equality)

/-- The alias of a component ends in a digit, that of a result does not. -/
theorem componentAlias_ne_componentResultAlias (left right : Nat) :
    options.componentAlias left ≠ options.componentResultAlias right := by
  intro equality
  have characters : options.componentStem.toList ++ '_' :: Nat.toDigits 10 (left + 1) =
      (options.componentAlias right).toList ++ "_Result".toList := by
    rw [← NameTable.toList_numbered, ← String.toList_append]
    exact congrArg String.toList equality
  have nonempty : Nat.toDigits 10 (left + 1) ≠ [] := Nat.toDigits_ne_nil
  have final : (Nat.toDigits 10 (left + 1)).getLast nonempty = 't' := by
    have lasts := congrArg List.getLast? characters
    rw [List.getLast?_append_of_ne_nil _ (List.cons_ne_nil _ _),
      List.getLast?_cons_of_ne_nil nonempty, List.getLast?_append_of_ne_nil _ (by decide),
      List.getLast?_eq_some_getLast nonempty] at lasts
    exact Option.some.inj lasts
  have digit : ('t').isDigit :=
    Nat.isDigit_of_mem_toDigits (by decide) (by decide) (final ▸ List.getLast_mem nonempty)
  exact absurd digit (by decide)

theorem nodup_componentAliases (count : Nat) :
    (Compiler.componentAliases options count).Nodup := by
  refine List.nodup_flatMap.mpr ⟨fun place _ => ?_, ?_⟩
  · rw [List.nodup_cons, List.mem_singleton]
    exact ⟨componentAlias_ne_componentResultAlias options place place, List.nodup_singleton _⟩
  · refine List.nodup_range.imp fun {left right} different name inLeft inRight => ?_
    simp only [List.mem_cons, List.not_mem_nil, or_false] at inLeft inRight
    rcases inLeft with rfl | rfl
    · rcases inRight with same | same
      · exact different (componentAlias_injective options same)
      · exact componentAlias_ne_componentResultAlias options left right same
    · rcases inRight with same | same
      · exact componentAlias_ne_componentResultAlias options right left same.symm
      · exact different (componentResultAlias_injective options same)

end Aliases

/-! ## Names in plans -/

/-- Whether a slot of a named node is an endpoint, by the name that the endpoint's own id has. -/
def BoundSlot.Stands (names : NameTable) (endpoint : Endpoint) (slot : BoundSlot) : Prop :=
  names.bindings.get? endpoint.node = some slot.binding ∧ slot.slot = endpoint.slot

/-- Whether a plan mentions what is in a component by the names of a table. -/
structure ComponentPlan.NamedBy (names : NameTable) (component : Component)
    (plan : ComponentPlan) : Prop where
  nodes : List.Forall₂
    (fun node nodePlan =>
      nodePlan.id = node.id ∧ names.bindings.get? node.id = some nodePlan.binding)
    component.nodes plan.nodes
  steps : ∀ step ∈ plan.steps, names.bindings.get? step.id = some step.binding
  connections : List.Forall₂
    (fun edge connection =>
      connection.source.Stands names edge.origin ∧
        connection.target.Stands names edge.destination)
    component.edges plan.connections
  inputs : ∀ nodePlan ∈ plan.nodes, ∀ slot source, (slot, .output source) ∈ nodePlan.inputs →
    ∃ edge ∈ component.edges,
      edge.destination = ⟨nodePlan.id, slot⟩ ∧ source.Stands names edge.origin
  result : ∃ node, component.nodes[component.resultPlace]? = some node ∧
    names.bindings.get? node.id = some plan.result.binding

/-- A component is planned by the names of its own nodes if these have names. -/
theorem Component.IsPart.namedBy
    {nodes : List Node} {edges : List Edge} {component : Component} {names : NameTable}
    (part : component.IsPart nodes edges)
    (occupied : component.nodes ≠ [])
    (named : ∀ id, component.contains id → names.bindings.get? id = some (names.binding id))
    (registry : Registry) (options : Options) (place : Nat) :
    (component.plan registry options names place).NamedBy names component := by
  have namedPlan : ∀ nodePlan ∈ (component.plan registry options names place).nodes,
      names.bindings.get? nodePlan.id = some nodePlan.binding := by
    intro nodePlan member
    obtain ⟨node, nodeMember, rfl⟩ := Component.mem_nodes_plan.mp member
    exact named node.id (Component.contains_of_mem nodeMember)
  constructor
  · rw [Component.plan_nodes, List.forall₂_map_right_iff, List.forall₂_same]
    exact fun node member => ⟨rfl, named node.id (Component.contains_of_mem member)⟩
  · exact fun step member => namedPlan step (Component.mem_nodes_of_mem_steps member)
  · rw [Component.plan_connections, List.forall₂_map_right_iff, List.forall₂_same]
    intro edge member
    exact ⟨⟨named edge.source (part.contains_source member), rfl⟩,
      ⟨named edge.target (part.contains_target member), rfl⟩⟩
  · intro nodePlan member slot source input
    obtain ⟨node, _, rfl⟩ := Component.mem_nodes_plan.mp member
    obtain ⟨edge, last, rfl⟩ := Component.output_mem_inputs_planNode input
    obtain ⟨edgeMember, leads, leadsSlot⟩ := lastEdgeInto?_eq_some last
    refine ⟨edge, edgeMember, ?_, named edge.source (part.contains_source edgeMember), rfl⟩
    rw [Edge.destination, leads, leadsSlot, Component.planNode_id]
  · have inside := Component.resultPlace_lt occupied
    have stands := List.getElem?_eq_getElem inside
    refine ⟨_, stands, ?_⟩
    rw [Component.result_plan stands]
    exact named _ (Component.contains_of_mem (List.getElem_mem inside))

/-! ## Names in compilations -/

/-- The aliases that a plan declares. -/
def ComponentPlan.aliases (plan : ComponentPlan) : List String :=
  [plan.declaredName, plan.resultAlias]

namespace Compilation

/-- The aliases of all components and of their results. -/
def aliases (compilation : Compilation) : List String :=
  compilation.components.flatMap ComponentPlan.aliases

/-- The names that a file uses for something other than nodes and the whole result. -/
def occupiedNames (compilation : Compilation) : List String :=
  reservedWords ++ (compilation.imports ++ compilation.aliases)

/-- Whether a table names the nodes of a graph without confusion. -/
structure Hygienic (graph : Graph) (names : NameTable) (compilation : Compilation) : Prop where
  named : ∀ node ∈ graph.nodes, ∃ name, names.bindings.get? node.id = some name
  injective : ∀ left right name,
    names.bindings.get? left = some name → names.bindings.get? right = some name → left = right
  identifier : ∀ id name, names.bindings.get? id = some name → Text.isIdentifier name
  clear : ∀ id name, names.bindings.get? id = some name → name ∉ compilation.occupiedNames
  apart : ∀ id name, names.bindings.get? id = some name → name ≠ compilation.resultAlias
  resultIdentifier : Text.isIdentifier compilation.resultAlias
  resultClear : compilation.resultAlias ∉ compilation.occupiedNames
  distinctAliases : compilation.aliases.Nodup

/-- Whether a file calls a node or the whole result by a name. -/
def Gives (compilation : Compilation) (name : String) : Prop :=
  (∃ plan ∈ compilation.components, ∃ node ∈ plan.nodes, node.binding = name) ∨
    name = compilation.resultAlias

end Compilation

namespace Compiler

variable {compiler : Compiler} {graph : Graph} {wish : String}

theorem aliases_compile (compiler : Compiler) (graph : Graph) (wish : String) :
    (compiler.compile graph wish).aliases =
      componentAliases compiler.options
        (connectedComponents graph.nodes graph.edges).length := by
  rw [Compilation.aliases, components_compile, componentAliases, List.flatMap_def,
    List.flatMap_def]
  congr 1
  apply List.ext_getElem?
  intro place
  by_cases inside : place < (connectedComponents graph.nodes graph.edges).length
  · simp [inside, ComponentPlan.aliases, Component.plan]
  · simp [inside]

/-- The names that are taken before anything is named. -/
def takenNames (compiler : Compiler) (graph : Graph) : List String :=
  reservedWords ++ (compiler.imports graph.nodes ++
    componentAliases compiler.options (connectedComponents graph.nodes graph.edges).length)

/-- The alias of the whole result. -/
def resultName (compiler : Compiler) (graph : Graph) (wish : String) : String :=
  NameTable.freshName ⟨compiler.takenNames graph, .empty⟩ (resultText compiler.options wish)

/-- The whole result is named first, and its name is taken before the ids are named. -/
theorem graphNaming_eq (compiler : Compiler) (graph : Graph) (wish : String) :
    compiler.graphNaming graph wish =
      (compiler.resultName graph wish,
        NameTable.assignAll
          ⟨compiler.resultName graph wish :: compiler.takenNames graph, .empty⟩
          (graph.nodes.map Node.id)) := by
  rw [graphNaming, naming, NameTable.claim_eq]
  rfl

theorem resultName_not_mem (compiler : Compiler) (graph : Graph) (wish : String) :
    compiler.resultName graph wish ∉ compiler.takenNames graph :=
  NameTable.freshName_not_mem ⟨compiler.takenNames graph, .empty⟩ _

theorem isIdentifier_resultName (compiler : Compiler) (graph : Graph) (wish : String) :
    Text.isIdentifier (compiler.resultName graph wish) :=
  NameTable.isIdentifier_freshName ⟨compiler.takenNames graph, .empty⟩ _

/-- The names of nodes keep off the name of the whole result too. -/
theorem keepsOff_names (compiler : Compiler) (graph : Graph) (wish : String) :
    (compiler.names graph wish).KeepsOff
      (compiler.resultName graph wish :: compiler.takenNames graph) := by
  rw [names, graphNaming_eq]
  exact (NameTable.keepsOff_taken _).assignAll _

/-- Nodes with different ids have different names. -/
theorem binding_injective
    (compiler : Compiler) (wish : String)
    {left right : String}
    (leftPresent : left ∈ graph.nodes.map Node.id)
    (rightPresent : right ∈ graph.nodes.map Node.id)
    (same : (compiler.names graph wish).binding left =
      (compiler.names graph wish).binding right) :
    left = right := by
  have leftNamed := get?_names compiler wish leftPresent
  have rightNamed := get?_names compiler wish rightPresent
  rw [← same] at rightNamed
  exact (keepsOff_names compiler graph wish).injective left right _ leftNamed rightNamed

theorem resultAlias_compile (occupied : graph.nodes ≠ []) :
    (compiler.compile graph wish).resultAlias = compiler.resultName graph wish := by
  rw [(compile_of_occupied occupied).2.1, graphNaming_eq]

theorem occupiedNames_compile (occupied : graph.nodes ≠ []) :
    (compiler.compile graph wish).occupiedNames = compiler.takenNames graph := by
  rw [Compilation.occupiedNames, aliases_compile, (compile_of_occupied occupied).1, takenNames]

theorem hygienic_names (occupied : graph.nodes ≠ []) :
    (compiler.compile graph wish).Hygienic graph (compiler.names graph wish) := by
  have keeps := keepsOff_names compiler graph wish
  constructor
  · exact fun node member => exists_name compiler wish (List.mem_map_of_mem member)
  · exact keeps.injective
  · exact keeps.identifier
  · intro id name bound
    rw [occupiedNames_compile occupied]
    exact fun member => keeps.clear id name bound (List.mem_cons_of_mem _ member)
  · intro id name bound same
    rw [resultAlias_compile occupied] at same
    exact keeps.clear id name bound (List.mem_cons.mpr (Or.inl same))
  · rw [resultAlias_compile occupied]
    exact isIdentifier_resultName compiler graph wish
  · rw [resultAlias_compile occupied, occupiedNames_compile occupied]
    exact resultName_not_mem compiler graph wish
  · rw [aliases_compile]
    exact nodup_componentAliases _ _

theorem gives_iff {name : String} (occupied : graph.nodes ≠ []) :
    (compiler.compile graph wish).Gives name ↔
      (∃ node ∈ graph.nodes, (compiler.names graph wish).binding node.id = name) ∨
        name = compiler.resultName graph wish := by
  rw [Compilation.Gives, resultAlias_compile occupied]
  refine or_congr_left ?_
  constructor
  · rintro ⟨plan, planned, nodePlan, listed, named⟩
    obtain ⟨place, component, stands, rfl⟩ := mem_components_compile.mp planned
    obtain ⟨node, inside, rfl⟩ := Component.mem_nodes_plan.mp listed
    have part := isPart_of_mem (List.mem_of_getElem? stands)
    exact ⟨node, (part.mem_nodes_iff.mp inside).1, named⟩
  · rintro ⟨node, member, named⟩
    have present : hasNode graph.nodes node.id := hasNode_iff.mpr (List.mem_map_of_mem member)
    obtain ⟨component, divided, contained⟩ :
        ∃ component ∈ connectedComponents graph.nodes graph.edges, component.contains node.id :=
      exists_component present
    obtain ⟨place, stands⟩ := List.getElem?_of_mem divided
    obtain ⟨inside, listed, same⟩ := List.mem_map.mp (hasNode_iff.mp contained)
    refine ⟨_, mem_components_compile.mpr ⟨place, component, stands, rfl⟩, _,
      Component.mem_nodes_plan.mpr ⟨inside, listed, rfl⟩, ?_⟩
    rw [Component.planNode_binding, same]
    exact named

/-- A name that is taken in the beginning is not given. -/
theorem not_gives_of_occupied
    {name : String}
    (occupied : graph.nodes ≠ [])
    (taken : name ∈ (compiler.compile graph wish).occupiedNames) :
    ¬ (compiler.compile graph wish).Gives name := by
  have hygienic : (compiler.compile graph wish).Hygienic graph (compiler.names graph wish) :=
    hygienic_names occupied
  intro given
  rcases (gives_iff occupied).mp given with ⟨node, member, rfl⟩ | same
  · have named := get?_names compiler wish (List.mem_map_of_mem member)
    exact hygienic.clear _ _ named taken
  · rw [same, ← resultAlias_compile occupied] at taken
    exact hygienic.resultClear taken

/-- Every component is planned by the names of its own nodes. -/
theorem namedBy_names :
    List.Forall₂ (ComponentPlan.NamedBy (compiler.names graph wish))
      (connectedComponents graph.nodes graph.edges)
      (compiler.compile graph wish).components := by
  rw [components_compile]
  apply forall₂_mapIdx
  intro component member place
  have part := isPart_of_mem member
  refine part.namedBy (nodes_ne_nil_of_mem member) (fun id contained => ?_) _ _ _
  obtain ⟨node, nodeMember, rfl⟩ := List.mem_map.mp (hasNode_iff.mp contained)
  exact get?_names compiler wish (List.mem_map_of_mem (part.mem_nodes_iff.mp nodeMember).1)

/-- Names are given without confusion, and all plans use them for what they name. -/
theorem compile_hygienic
    (compiler : Compiler) (graph : Graph) (wish : String)
    (occupied : graph.nodes ≠ []) :
    (compiler.compile graph wish).Hygienic graph (compiler.names graph wish) ∧
      List.Forall₂ (ComponentPlan.NamedBy (compiler.names graph wish))
        (connectedComponents graph.nodes graph.edges)
        (compiler.compile graph wish).components :=
  ⟨hygienic_names occupied, namedBy_names⟩

/-- Two ids with one identifier, and the text that the whole result is named after. -/
def rivals : Graph where
  nodes := [.ofOperation "a b" "Strings.Trim", .ofOperation "a-b" "Strings.Trim",
    .ofOperation "Result" "Strings.Trim"]
  edges := [.between "e1" "a b" "a-b", .between "e2" "a-b" "Result"]

theorem compile_hygienic_rivals :
    rivals.nodes ≠ [] ∧
      (standard.compile rivals "").Hygienic rivals (standard.names rivals "") ∧
      List.Forall₂ (ComponentPlan.NamedBy (standard.names rivals ""))
        (connectedComponents rivals.nodes rivals.edges)
        (standard.compile rivals "").components :=
  ⟨List.cons_ne_nil _ _, compile_hygienic standard rivals "" (List.cons_ne_nil _ _)⟩

end Compiler

end TypeGraph
