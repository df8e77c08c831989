import TypeGraph.Proofs.Compiler.Dataflow

/-!
# Operations that are not registered

A node whose operation nobody knows is planned by what leads to it: it has an input for each slot
that edges lead to, or else one for each of its values. No connection and no value is lost on the
way, and nothing is made up.
-/

namespace TypeGraph

theorem OrderedMap.nodup_keys {κ α : Type} (map : OrderedMap κ α) : map.keys.Nodup :=
  map.distinct

namespace Signature

/-- A slot that nothing is known of but its id. -/
def unknownSlot (required : Bool) (id : String) : Slot :=
  ⟨id, id, .any, required⟩

theorem addUnknownSlot_of_mem
    {slots : List Slot} {id : String}
    (known : id ∈ slots.map Slot.id)
    (required : Bool) :
    addUnknownSlot required slots id = slots := by
  have present : slots.any fun slot => slot.id == id := by
    simpa using known
  simp [addUnknownSlot, present]

theorem addUnknownSlot_of_not_mem
    {slots : List Slot} {id : String}
    (new : id ∉ slots.map Slot.id)
    (required : Bool) :
    addUnknownSlot required slots id = slots ++ [unknownSlot required id] := by
  have absent : ¬ slots.any fun slot => slot.id == id := by
    simpa using new
  simp only [addUnknownSlot, absent, unknownSlot]
  rfl

/-- Slots are added for those ids that are not there yet. -/
theorem foldl_addUnknownSlot
    (required : Bool)
    {ids : List String}
    (distinct : ids.Nodup)
    (slots : List Slot) :
    ids.foldl (addUnknownSlot required) slots =
      slots ++ (ids.filter fun id => id ∉ slots.map Slot.id).map (unknownSlot required) := by
  induction ids generalizing slots with
  | nil =>
      simp
  | cons id rest inner =>
      obtain ⟨absent, distinctRest⟩ := List.nodup_cons.mp distinct
      rw [List.foldl_cons]
      by_cases known : id ∈ slots.map Slot.id
      · rw [addUnknownSlot_of_mem known, inner distinctRest]
        simp only [List.filter_cons, known, not_true, decide_false]
        rfl
      · -- The new slot keeps off no later id, because no id is repeated.
        have later : ∀ other ∈ rest,
            decide (other ∉ (slots ++ [unknownSlot required id]).map Slot.id) =
              decide (other ∉ slots.map Slot.id) := by
          intro other member
          have different : other ≠ id := by
            intro same
            exact absent (same ▸ member)
          simp [unknownSlot, different]
        rw [addUnknownSlot_of_not_mem known, inner distinctRest, List.filter_congr later,
          List.filter_cons_of_pos (by simpa using known), List.map_cons, List.append_assoc,
          List.singleton_append]

/-- The stand-in has a slot for each value, and then one for each other slot with a connection. -/
theorem inputs_opaqueFor
    (operation : String)
    {wired valued : List String}
    (distinctWired : wired.Nodup)
    (distinctValued : valued.Nodup) :
    (opaqueFor operation wired valued).inputs =
      valued.map (unknownSlot true) ++
        (wired.filter fun id => id ∉ valued).map (unknownSlot false) := by
  have fromValues : valued.foldl (addUnknownSlot true) [] = valued.map (unknownSlot true) := by
    rw [foldl_addUnknownSlot true distinctValued]
    simp
  have ids : (valued.map (unknownSlot true)).map Slot.id = valued := by
    simp [Function.comp_def, unknownSlot]
  change wired.foldl (addUnknownSlot false) (valued.foldl (addUnknownSlot true) []) = _
  rw [fromValues, foldl_addUnknownSlot false distinctWired, ids]

theorem ids_inputs_opaqueFor
    (operation : String)
    {wired valued : List String}
    (distinctWired : wired.Nodup)
    (distinctValued : valued.Nodup) :
    (opaqueFor operation wired valued).inputs.map Slot.id =
      valued ++ wired.filter fun id => id ∉ valued := by
  simp [inputs_opaqueFor operation distinctWired distinctValued, Function.comp_def, unknownSlot]

end Signature

namespace Node

variable {registry : Registry} {names : NameTable} {wires : OrderedMap String Endpoint}
  {isEntry : Bool} {node : Node}

theorem signature_of_unregistered
    (unregistered : registry.get? node.operation = none)
    (wires : OrderedMap String Endpoint) :
    node.signature registry wires =
      .opaqueFor node.operation wires.keys node.inputValues.keys := by
  rw [Node.signature, Registry.resolve, unregistered]

/-- A slot is declared at most once. -/
theorem nodup_inputs_signature (unregistered : registry.get? node.operation = none) :
    ((node.signature registry wires).inputs.map Slot.id).Nodup := by
  rw [signature_of_unregistered unregistered,
    Signature.ids_inputs_opaqueFor _ wires.nodup_keys node.inputValues.nodup_keys]
  apply List.Nodup.append node.inputValues.nodup_keys (wires.nodup_keys.filter _)
  intro id valued wired
  simp [valued] at wired

/-- Each wired slot is declared. -/
theorem mem_inputs_signature_of_wired
    (unregistered : registry.get? node.operation = none)
    {id : String} (wired : id ∈ wires.keys) :
    id ∈ (node.signature registry wires).inputs.map Slot.id := by
  rw [signature_of_unregistered unregistered,
    Signature.ids_inputs_opaqueFor _ wires.nodup_keys node.inputValues.nodup_keys]
  by_cases valued : id ∈ node.inputValues.keys
  · exact List.mem_append_left _ valued
  · apply List.mem_append_right
    simp [wired, valued]

/-- Where slots are declared once, inputs have pairwise distinct slots. -/
theorem nodup_inputs_plan
    (declared : ((node.signature registry wires).inputs.map Slot.id).Nodup) :
    ((node.plan registry names wires isEntry).inputs.map Prod.fst).Nodup := by
  have sublist : ((node.plan registry names wires isEntry).inputs.map Prod.fst).Sublist
      ((node.signature registry wires).inputs.map Slot.id) := by
    change ((List.filterMap _ (node.signature registry wires).inputs).map Prod.fst).Sublist _
    induction (node.signature registry wires).inputs with
    | nil =>
        exact List.Sublist.slnil
    | cons slot rest inner =>
        cases source : node.inputSource? names wires isEntry slot with
        | none =>
            simpa [source] using inner.cons slot.id
        | some found =>
            simpa [source] using inner
  exact declared.sublist sublist

/-- An entry whose operation is not registered has its own values and no others. -/
theorem inputs_plan_of_values
    (names : NameTable)
    (unregistered : registry.get? node.operation = none)
    (unwired : wires.keys = []) :
    (node.plan registry names wires true).inputs =
      node.inputValues.entries.map fun entry => (entry.1, .literal entry.2) := by
  have slots : (node.signature registry wires).inputs =
      node.inputValues.keys.map (Signature.unknownSlot true) := by
    rw [signature_of_unregistered unregistered,
      Signature.inputs_opaqueFor _ wires.nodup_keys node.inputValues.nodup_keys, unwired]
    simp
  have bare : ∀ id, wires.get? id = none := by
    intro id
    have absent : id ∉ wires.keys := by
      simp [unwired]
    rwa [← OrderedMap.get?_isSome_iff, Option.not_isSome_iff_eq_none] at absent
  change List.filterMap _ (node.signature registry wires).inputs = _
  rw [slots, OrderedMap.keys, List.map_map, List.filterMap_map, ← List.filterMap_eq_map]
  apply List.filterMap_congr
  intro entry member
  have value : node.inputValue? entry.1 = some entry.2 :=
    (node.inputValues.get?_eq_some_iff entry.1 entry.2).mpr member
  have unfed : wires.get? (Signature.unknownSlot true entry.1).id = none := bare entry.1
  simp only [Function.comp_apply, inputSource?_of_unwired unfed, if_true]
  simp [entryLiteral?, Signature.unknownSlot, value]

/-- A node that edges lead to, and whose operation is not registered, has an input for each wire and
no others. -/
theorem mem_inputs_plan_of_wires
    (unregistered : registry.get? node.operation = none)
    {id : String} {source : InputSource} :
    (id, source) ∈ (node.plan registry names wires false).inputs ↔
      ∃ origin, wires.get? id = some origin ∧
        source = .output ⟨names.binding origin.node, origin.slot⟩ := by
  rw [mem_inputs_plan]
  constructor
  · rintro ⟨slot, _, rfl, found⟩
    cases wired : wires.get? slot.id with
    | none =>
        simp [inputSource?_of_unwired wired] at found
    | some origin =>
        rw [inputSource?_of_wired wired, Option.some.injEq] at found
        exact ⟨origin, rfl, found.symm⟩
  · rintro ⟨origin, wired, rfl⟩
    have key : id ∈ wires.keys := by
      rw [← OrderedMap.get?_isSome_iff, wired, Option.isSome_some]
    obtain ⟨slot, declared, rfl⟩ :=
      List.mem_map.mp (mem_inputs_signature_of_wired unregistered key)
    exact ⟨slot, declared, rfl, inputSource?_of_wired wired⟩

theorem mem_slots_plan_of_wires
    (unregistered : registry.get? node.operation = none)
    {id : String} :
    id ∈ (node.plan registry names wires false).inputs.map Prod.fst ↔ id ∈ wires.keys := by
  rw [← OrderedMap.get?_isSome_iff, Option.isSome_iff_exists, List.mem_map]
  constructor
  · rintro ⟨⟨_, source⟩, bound, rfl⟩
    obtain ⟨origin, wired, _⟩ := (mem_inputs_plan_of_wires unregistered).mp bound
    exact ⟨origin, wired⟩
  · rintro ⟨origin, wired⟩
    exact ⟨_, (mem_inputs_plan_of_wires unregistered).mpr ⟨origin, wired, rfl⟩, rfl⟩

end Node

/-! ## Plans of all nodes -/

/-- What is emitted for the nodes of all components. -/
def Compilation.nodePlans (compilation : Compilation) : List NodePlan :=
  compilation.components.flatMap ComponentPlan.nodes

/-- Whether the inputs of a node are the slots that edges lead to, and each of them reads what the
last such edge comes from. The node that an edge comes from is one of some planned nodes. -/
structure NodePlan.ReadsLast (edges : List Edge) (plans : List NodePlan) (plan : NodePlan) :
    Prop where
  targeted : ∀ slot, slot ∈ plan.inputs.map Prod.fst ↔
    ∃ edge ∈ edges, edge.target = plan.id ∧ edge.targetSlot = slot
  distinct : (plan.inputs.map Prod.fst).Nodup
  last : ∀ slot source, (slot, source) ∈ plan.inputs →
    ∃ edge origin, lastEdgeInto? edges plan.id slot = some edge ∧
      origin ∈ plans ∧ origin.id = edge.source ∧
      source = .output ⟨origin.binding, edge.sourceSlot⟩

/-- Whether a node is planned without a signature: by the edges that lead to it, or by its own
values if no edge does. -/
structure NodePlan.ByWiring (edges : List Edge) (plans : List NodePlan) (node : Node)
    (plan : NodePlan) : Prop where
  id : plan.id = node.id
  typeText : plan.typeText = node.operation
  primaryOutput : plan.primaryOutput = "out"
  wired : (∃ edge ∈ edges, edge.target = node.id) → plan.ReadsLast edges plans
  valued : (∀ edge ∈ edges, edge.target ≠ node.id) →
    plan.inputs = node.inputValues.entries.map fun entry => (entry.1, .literal entry.2)

theorem filter_id_of_mem
    {nodes : List Node} {node : Node}
    (distinct : (nodes.map Node.id).Nodup)
    (member : node ∈ nodes) :
    nodes.filter (·.id == node.id) = [node] := by
  induction nodes with
  | nil =>
      cases member
  | cons first rest inner =>
      rw [List.map_cons, List.nodup_cons] at distinct
      by_cases same : first.id = node.id
      · have others : rest.filter (·.id == node.id) = [] := by
          apply List.filter_eq_nil_iff.mpr
          intro other later sameId
          apply distinct.1
          rw [same, ← beq_iff_eq.mp sameId]
          exact List.mem_map_of_mem later
        have isFirst : node = first := by
          rcases List.mem_cons.mp member with isFirst | later
          · exact isFirst
          · exact absurd (same ▸ List.mem_map_of_mem later) distinct.1
        simp [same, others, isFirst]
      · have later : node ∈ rest := by
          rcases List.mem_cons.mp member with rfl | later
          · exact absurd rfl same
          · exact later
        simpa [same] using inner distinct.2 later

namespace Compiler

variable {compiler : Compiler} {graph : Graph} {wish : String}

/-- Each node is planned once, by the edges of the whole graph. -/
theorem nodePlans_perm (compiler : Compiler) (graph : Graph) (wish : String) :
    (compiler.compile graph wish).nodePlans.Perm
      (graph.nodes.map (graph.step compiler.registry (compiler.names graph wish))) := by
  have related : List.Forall₂
      (fun component (plan : ComponentPlan) => plan.nodes =
        component.nodes.map (graph.step compiler.registry (compiler.names graph wish)))
      (connectedComponents graph.nodes graph.edges)
      (compiler.compile graph wish).components := by
    rw [components_compile]
    apply forall₂_mapIdx
    intro component member place
    rw [Component.plan_nodes]
    exact List.map_congr_left fun node inside => (isPart_of_mem member).planNode_eq inside
  rw [Compilation.nodePlans, List.flatMap_def, map_eq_map_of_forall₂ related, ← List.flatMap_def,
    ← List.map_flatMap]
  exact (flatMap_nodes_perm graph.nodes graph.edges).map _

/-- Where ids are pairwise distinct, a node has one plan. -/
theorem filter_nodePlans
    (compiler : Compiler) (wish : String)
    (distinct : (graph.nodes.map Node.id).Nodup)
    {node : Node}
    (member : node ∈ graph.nodes) :
    (compiler.compile graph wish).nodePlans.filter (·.id == node.id) =
      [graph.step compiler.registry (compiler.names graph wish) node] := by
  have kept := (nodePlans_perm compiler graph wish).filter (·.id == node.id)
  have same : ((·.id == node.id) ∘
      graph.step compiler.registry (compiler.names graph wish)) = (·.id == node.id) := by
    funext other
    rw [Function.comp_apply, Component.planNode_id]
  rw [List.filter_map, same, filter_id_of_mem distinct member] at kept
  exact List.perm_singleton.mp kept

/-- A slot of a node is wired if an edge leads to it. -/
theorem mem_keys_into_iff {edges : List Edge} {id slot : String} :
    slot ∈ ((Wiring.ofEdges edges).into id).keys ↔
      ∃ edge ∈ edges, edge.target = id ∧ edge.targetSlot = slot := by
  rw [Wiring.keys_into_ofEdges, slotsInto, List.mem_eraseDups, List.mem_map]
  simp only [edgesInto, List.mem_filter, beq_iff_eq, and_assoc]

theorem exists_nodePlan_of_edge
    (compiler : Compiler) (wish : String)
    {edge : Edge}
    (resolved : edge ∈ graph.resolved) :
    ∃ origin ∈ (compiler.compile graph wish).nodePlans, origin.id = edge.source ∧
      origin.binding = (compiler.names graph wish).binding edge.source := by
  obtain ⟨_, present, _⟩ := mem_resolvedEdges.mp resolved
  obtain ⟨node, member, sameId⟩ := List.mem_map.mp (hasNode_iff.mp present)
  have planned := List.mem_map_of_mem
    (f := graph.step compiler.registry (compiler.names graph wish)) member
  refine ⟨_, (nodePlans_perm compiler graph wish).mem_iff.mpr planned, ?_, ?_⟩
  · rw [Component.planNode_id, sameId]
  · rw [Component.planNode_binding, sameId]

theorem readsLast_step
    {node : Node}
    (member : node ∈ graph.nodes)
    (unregistered : compiler.registry.get? node.operation = none)
    (reached : ∃ edge ∈ graph.resolved, edge.target = node.id) :
    (graph.step compiler.registry (compiler.names graph wish) node).ReadsLast graph.resolved
      (compiler.compile graph wish).nodePlans := by
  have notEntry : hasNode (entryNodes graph.nodes graph.resolved) node.id = false := by
    obtain ⟨edge, resolved, leads⟩ := reached
    rw [Bool.eq_false_iff, Ne, hasNode_entryNodes_iff member]
    intro none
    have inside : edge ∈ edgesInto graph.resolved node.id := by
      simp [edgesInto, resolved, leads]
    simp [none] at inside
  have planned : graph.step compiler.registry (compiler.names graph wish) node =
      node.plan compiler.registry (compiler.names graph wish)
        ((Wiring.ofEdges graph.resolved).into node.id) false := by
    rw [← notEntry]
    rfl
  rw [planned]
  constructor
  · intro slot
    rw [Node.mem_slots_plan_of_wires unregistered]
    exact mem_keys_into_iff
  · exact Node.nodup_inputs_plan (Node.nodup_inputs_signature unregistered)
  · intro slot source bound
    obtain ⟨origin, wired, rfl⟩ := (Node.mem_inputs_plan_of_wires unregistered).mp bound
    rw [Wiring.get?_into_ofEdges, Option.map_eq_some_iff] at wired
    obtain ⟨edge, last, rfl⟩ := wired
    obtain ⟨before, present, sameId, named⟩ :=
      exists_nodePlan_of_edge compiler wish (lastEdgeInto?_eq_some last).1
    refine ⟨edge, before, last, present, sameId, ?_⟩
    rw [named]
    rfl

/-- A node whose operation is not registered is planned by its wiring. -/
theorem byWiring_step
    {node : Node}
    (member : node ∈ graph.nodes)
    (unregistered : compiler.registry.get? node.operation = none) :
    (graph.step compiler.registry (compiler.names graph wish) node).ByWiring graph.resolved
      (compiler.compile graph wish).nodePlans node where
  id := Component.planNode_id node
  typeText := by
    rw [typeText_planNode, typeText, unregistered]
    rfl
  primaryOutput := by
    change (node.signature compiler.registry _).primaryOutput = _
    rw [Node.signature_of_unregistered unregistered]
    rfl
  wired := readsLast_step member unregistered
  valued := by
    intro unreached
    have none : edgesInto graph.resolved node.id = [] := by
      simpa [edgesInto] using unreached
    have entry : hasNode (entryNodes graph.nodes graph.resolved) node.id = true :=
      (hasNode_entryNodes_iff member).mpr none
    have unwired : ((Wiring.ofEdges graph.resolved).into node.id).keys = [] := by
      rw [Wiring.keys_into_ofEdges, slotsInto, none]
      rfl
    have values := Node.inputs_plan_of_values (compiler.names graph wish) unregistered unwired
    rw [← entry] at values
    exact values

/-- A node with an unknown operation has one plan. No connection to it is lost, and no value of it
where it has no connections. -/
theorem unknown_operation_bound
    (compiler : Compiler) (graph : Graph) (wish : String)
    (distinct : (graph.nodes.map Node.id).Nodup)
    (node : Node)
    (member : node ∈ graph.nodes)
    (unregistered : compiler.registry.get? node.operation = none) :
    ∃ plan,
      (compiler.compile graph wish).nodePlans.filter (·.id == node.id) = [plan] ∧
        plan.ByWiring graph.resolved (compiler.compile graph wish).nodePlans node :=
  ⟨_, filter_nodePlans compiler wish distinct member, byWiring_step member unregistered⟩

/-- A node with two values and an operation that is not in the catalog. -/
def vendorNode : Node :=
  ((Node.ofOperation "x" "Vendor.Thing").withInputValue "k" (.bool true)).withInputValue "in"
    (.string "v")

/-- Two edges lead to one slot, one of them from its own node; a third slot has no value, and the
edge to the slot of the first value comes from nowhere. -/
def overruled : Graph where
  nodes := [.ofOperation "a" "Strings.Trim", vendorNode]
  edges := [(Edge.between "e1" "a" "x").withSlots "out" "z", .between "e2" "a" "x",
    (Edge.between "e3" "x" "x").withSlots "copy" "in",
    (Edge.between "e4" "ghost" "x").withSlots "out" "k"]

theorem mem_overruled : vendorNode ∈ overruled.nodes :=
  List.mem_cons_of_mem _ List.mem_cons_self

theorem unknown_operation_bound_overruled :
    (overruled.nodes.map Node.id).Nodup ∧
      vendorNode ∈ overruled.nodes ∧
        standard.registry.get? vendorNode.operation = none ∧
          ∃ plan,
            (standard.compile overruled "").nodePlans.filter (·.id == vendorNode.id) = [plan] ∧
              plan.ByWiring overruled.resolved (standard.compile overruled "").nodePlans
                vendorNode :=
  ⟨by decide, mem_overruled, rfl,
    unknown_operation_bound standard overruled "" (by decide) vendorNode mem_overruled rfl⟩

example : (standard.compile overruled "").nodePlans.map
      (fun plan => (plan.typeText, plan.inputs.map Prod.fst)) =
    [("Strings.Trim", ["in"]), ("Vendor.Thing", ["in", "z"])] := by
  rfl

end Compiler

end TypeGraph
