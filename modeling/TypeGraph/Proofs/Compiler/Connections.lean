import TypeGraph.Proofs.Compiler.Hygiene
import TypeGraph.Proofs.Validation.Report

/-!
# Connections and steps

A plan says twice how nodes are connected: in the list of its connections, which come from edges,
and in the inputs of its steps, which come from the slots that operations declare. Where nothing is
reported, the two say the same if and only if all edges lead to declared slots, which is nowhere
checked.
-/

namespace TypeGraph

namespace ComponentPlan

/-- Whether a step takes an input from where a connection comes. -/
def Reads (plan : ComponentPlan) (connection : Connection) : Prop :=
  ∃ step ∈ plan.steps,
    step.binding = connection.target.binding ∧
      (connection.target.slot, .output connection.source) ∈ step.inputs

/-- Whether the connections are those that steps take inputs from. -/
def WiresAgree (plan : ComponentPlan) : Prop :=
  ∀ connection, connection ∈ plan.connections ↔ plan.Reads connection

end ComponentPlan

namespace Compiler

variable {compiler : Compiler} {graph : Graph} {wish : String}

/-- Whether an edge leads to a slot that the operation at its end declares. -/
def Declares (compiler : Compiler) (graph : Graph) (edge : Edge) : Prop :=
  ∃ node ∈ graph.nodes, node.id = edge.target ∧
    ∃ signature, compiler.registry.get? node.operation = some signature ∧
      edge.targetSlot ∈ signature.inputs.map Slot.id

/-- An input that is taken from an output is that of an edge to a declared slot. -/
theorem exists_edge_of_reads
    (flawless : graph.Flawless compiler.registry)
    {component : Component}
    (part : component.IsPart graph.nodes graph.edges)
    {options : Options} {names : NameTable} {place : Nat} {connection : Connection}
    (reads : (component.plan compiler.registry options names place).Reads connection) :
    ∃ edge ∈ component.edges,
      compiler.Declares graph edge ∧ edge.connection names = connection := by
  obtain ⟨step, stepMember, named, input⟩ := reads
  obtain ⟨node, member, rfl⟩ :=
    Component.mem_nodes_plan.mp (Component.mem_nodes_of_mem_steps stepMember)
  have inGraph : node ∈ graph.nodes := (part.mem_nodes_iff.mp member).1
  obtain ⟨signature, registered⟩ := flawless.registered node inGraph
  obtain ⟨slot, declared, sameSlot, _⟩ := Node.mem_inputs_plan.mp input
  rw [Node.signature_of_registered registered] at declared
  obtain ⟨edge, last, source⟩ := Component.output_mem_inputs_planNode input
  obtain ⟨edgeMember, leads, leadsSlot⟩ := lastEdgeInto?_eq_some last
  refine ⟨edge, edgeMember, ⟨node, inGraph, leads.symm, signature, registered, ?_⟩, ?_⟩
  · rw [leadsSlot, ← sameSlot]
    exact List.mem_map_of_mem declared
  · rw [Edge.connection, ← source, leads, leadsSlot]
    exact congrArg (fun binding =>
      (⟨connection.source, ⟨binding, connection.target.slot⟩⟩ : Connection)) named

/-- An edge to a declared slot is an input of a step. -/
theorem reads_of_declares
    (distinct : (graph.nodes.map Node.id).Nodup)
    (flawless : graph.Flawless compiler.registry)
    {component : Component}
    (part : component.IsPart graph.nodes graph.edges)
    {edge : Edge}
    (edgeMember : edge ∈ component.edges)
    (declares : compiler.Declares graph edge)
    (options : Options) (names : NameTable) (place : Nat) :
    (component.plan compiler.registry options names place).Reads (edge.connection names) := by
  obtain ⟨node, inGraph, sameId, signature, registered, declared⟩ := declares
  obtain ⟨slot, slotMember, sameSlot⟩ := List.mem_map.mp declared
  have contained : component.contains node.id := sameId ▸ part.contains_target edgeMember
  have member : node ∈ component.nodes := part.mem_nodes_iff.mpr ⟨inGraph, contained⟩
  have steps := Component.steps_perm (part.distinct_ids distinct)
    (part.acyclic_links flawless.acyclic) compiler.registry options names place
  have last : lastEdgeInto? graph.resolved node.id slot.id = some edge := by
    rw [sameId, sameSlot]
    exact flawless.single edge (part.mem_edges_iff.mp edgeMember).1
  refine ⟨component.planNode compiler.registry names node,
    steps.mem_iff.mpr (List.mem_map_of_mem member), ?_, ?_⟩
  · rw [Component.planNode_binding, sameId]
    rfl
  · rw [part.planNode_eq member]
    refine Node.mem_inputs_plan.mpr ⟨slot, ?_, sameSlot, Node.inputSource?_of_edge last⟩
    rw [Node.signature_of_registered registered]
    exact slotMember

theorem target_present
    {component : Component}
    (part : component.IsPart graph.nodes graph.edges)
    {edge : Edge}
    (member : edge ∈ component.edges) :
    edge.target ∈ graph.nodes.map Node.id :=
  hasNode_iff.mp (mem_resolvedEdges.mp (part.mem_edges_iff.mp member).1).2.2

/-- The steps read what the edges to declared slots carry. -/
theorem reads_iff
    (distinct : (graph.nodes.map Node.id).Nodup)
    (flawless : graph.Flawless compiler.registry)
    {component : Component}
    (part : component.IsPart graph.nodes graph.edges)
    {options : Options} {names : NameTable} {place : Nat} (connection : Connection) :
    (component.plan compiler.registry options names place).Reads connection ↔
      ∃ edge ∈ component.edges,
        compiler.Declares graph edge ∧ edge.connection names = connection := by
  constructor
  · exact exists_edge_of_reads flawless part
  · rintro ⟨edge, member, declares, rfl⟩
    exact reads_of_declares distinct flawless part member declares options names place

/-- The connections of a plan are read by its steps exactly if all slots are declared. -/
theorem wiresAgree_iff
    (distinct : (graph.nodes.map Node.id).Nodup)
    (flawless : graph.Flawless compiler.registry)
    {component : Component}
    (part : component.IsPart graph.nodes graph.edges)
    (options : Options) (place : Nat) :
    (component.plan compiler.registry options (compiler.names graph wish) place).WiresAgree ↔
      ∀ edge ∈ component.edges, compiler.Declares graph edge := by
  constructor
  · intro agree edge member
    have listed : edge.connection (compiler.names graph wish) ∈
        (component.plan compiler.registry options (compiler.names graph wish)
          place).connections := List.mem_map_of_mem member
    obtain ⟨other, otherMember, declares, same⟩ :=
      exists_edge_of_reads flawless part ((agree _).mp listed)
    have sameTarget : other.target = edge.target :=
      binding_injective compiler wish (target_present part otherMember)
        (target_present part member)
        (congrArg (fun connection : Connection => connection.target.binding) same)
    have sameSlot : other.targetSlot = edge.targetSlot :=
      congrArg (fun connection : Connection => connection.target.slot) same
    rw [Declares, sameTarget, sameSlot] at declares
    exact declares
  · intro declares connection
    rw [reads_iff distinct flawless part, Component.plan_connections, List.mem_map]
    constructor
    · rintro ⟨edge, member, rfl⟩
      exact ⟨edge, member, declares edge member, rfl⟩
    · rintro ⟨edge, member, _, rfl⟩
      exact ⟨edge, member, rfl⟩

/-- Where nothing is reported, the steps of each component read exactly those connections whose
edges lead to declared slots, so that connections and steps agree only if all of them do. -/
theorem connections_agree_iff_declared
    (compiler : Compiler) (graph : Graph) (wish : String)
    (distinct : (graph.nodes.map Node.id).Nodup)
    (nothing : compiler.problems graph = []) :
    List.Forall₂
      (fun component plan =>
        (∀ connection, plan.Reads connection ↔
          ∃ edge ∈ component.edges,
            compiler.Declares graph edge ∧
              edge.connection (compiler.names graph wish) = connection) ∧
        (plan.WiresAgree ↔ ∀ edge ∈ component.edges, compiler.Declares graph edge))
      (connectedComponents graph.nodes graph.edges)
      (compiler.compile graph wish).components := by
  have flawless := flawless_of_problems_eq_nil nothing
  rw [components_compile]
  apply forall₂_mapIdx
  intro component member place
  have part := isPart_of_mem member
  exact ⟨reads_iff distinct flawless part,
    wiresAgree_iff distinct flawless part compiler.options place⟩

/-- An edge to a slot that nobody declares, beside one that the operation needs. -/
def strayed : Graph where
  nodes := [.ofOperation "n1" "Strings.Trim", .ofOperation "n2" "Strings.Trim"]
  edges := [.between "e1" "n1" "n2",
    (Edge.between "e2" "n1" "n2").withSlots "out" "bogus"]

theorem problems_strayed : standard.problems strayed = [] :=
  rfl

theorem connections_agree_iff_declared_strayed :
    List.Forall₂
      (fun component (plan : ComponentPlan) =>
        (∀ connection, plan.Reads connection ↔
          ∃ edge ∈ component.edges,
            standard.Declares strayed edge ∧
              edge.connection (standard.names strayed "") = connection) ∧
        (plan.WiresAgree ↔ ∀ edge ∈ component.edges, standard.Declares strayed edge))
      (connectedComponents strayed.nodes strayed.edges)
      (standard.compile strayed "").components :=
  connections_agree_iff_declared standard strayed "" (by decide) problems_strayed

theorem not_declares_strayed :
    ¬ standard.Declares strayed ((Edge.between "e2" "n1" "n2").withSlots "out" "bogus") := by
  rintro ⟨node, member, _, signature, registered, declared⟩
  have operation : node.operation = "Strings.Trim" := by
    rcases List.mem_cons.mp member with rfl | later
    · rfl
    · rw [List.mem_singleton.mp later]
      rfl
  have slots : (standard.registry.get? "Strings.Trim").map
      (fun signature => signature.inputs.map Slot.id) = some ["in"] := rfl
  rw [← operation, registered, Option.map_some, Option.some.injEq] at slots
  rw [slots] at declared
  exact absurd declared (by decide)

/-- Nothing is reported of the stray edge, and no step reads it. -/
theorem connections_disagree :
    ¬ ∀ (compiler : Compiler) (graph : Graph) (wish : String),
      (graph.nodes.map Node.id).Nodup → compiler.problems graph = [] →
        ∀ plan ∈ (compiler.compile graph wish).components, plan.WiresAgree := by
  intro agree
  have distinct : (strayed.nodes.map Node.id).Nodup := by decide
  have components : connectedComponents strayed.nodes strayed.edges =
      [⟨strayed.nodes, strayed.edges⟩] := rfl
  have part : Component.IsPart strayed.nodes strayed.edges ⟨strayed.nodes, strayed.edges⟩ :=
    isPart_of_mem (components ▸ List.mem_singleton_self _)
  have planned : Component.plan standard.registry standard.options (standard.names strayed "") 0
      ⟨strayed.nodes, strayed.edges⟩ ∈ (standard.compile strayed "").components :=
    mem_components_compile.mpr ⟨0, _, by rw [components]; rfl, rfl⟩
  have declares := (wiresAgree_iff distinct (flawless_of_problems_eq_nil problems_strayed) part
    _ _).mp (agree standard strayed "" distinct problems_strayed _ planned)
  exact not_declares_strayed (declares _ (List.mem_cons_of_mem _ List.mem_cons_self))

end Compiler

end TypeGraph
