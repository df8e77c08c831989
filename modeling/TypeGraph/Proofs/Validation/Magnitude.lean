import Mathlib.Algebra.Order.Field.Basic
import Mathlib.Algebra.Order.Field.Rat
import Mathlib.Algebra.Order.Ring.Cast
import Mathlib.Data.Int.Cast.Lemmas
import TypeGraph.Proofs.Number.Rounding
import TypeGraph.Proofs.Validation.MissingInputs

/-!
# Numbers that are too large

The standard rules compare a number with their bound after rounding it to the binary64 format, and
look at all values that no edge takes the place of, whether or not a plan uses them. They find fault
with exactly the numbers whose own magnitude is beyond the bound, so that none of these gets into a
plan unreported.
-/

namespace TypeGraph

open TypeGraph.Number

/-! ## The bound -/

/-- The value of a number, without rounding. -/
def Json.Number.exact : Json.Number → ℚ
  | .integer value _ => value
  | .real value => value.signedUnits / unitsInOne

namespace Number

theorem unitsInOne_pos : 0 < unitsInOne := by
  decide +kernel

/-- One thousand is a number of the format, and its rank is that of the standard bound. -/
theorem nearestRank_thousand : nearestRank (1000 * unitsInOne) 1 = Rule.standardBound.rank := by
  decide +kernel

theorem units_standardBound : Rule.standardBound.units = 1000 * unitsInOne := by
  decide +kernel

/-- The standard bound is compared with magnitudes. -/
theorem standardBound_lt_abs_iff (number : Binary64) :
    Rule.standardBound.lt number.abs ↔ 1000 * unitsInOne < number.units := by
  have positive : Rule.standardBound.signedUnits = Rule.standardBound.units := rfl
  have magnitude : number.abs.signedUnits = number.units := rfl
  rw [Binary64.lt, decide_eq_true_iff, positive, magnitude, units_standardBound]
  exact Int.ofNat_lt

/-- An integer of 64 bits has a nearest number, which is beyond the standard bound exactly if the
integer is. -/
theorem exists_ofInt? {value : Int} (fits : Json.FitsWord value) :
    ∃ number, Binary64.ofInt? value = some number ∧
      (1000 * unitsInOne < number.units ↔ 1000 < value.natAbs) := by
  have small : value.natAbs ≤ 18446744073709551616 := by
    rw [Json.FitsWord] at fits
    omega
  have finite : nearestRank (value.natAbs * unitsInOne) 1 < infiniteRank := by
    have largest : nearestRank (18446744073709551616 * unitsInOne) 1 < infiniteRank := by
      decide +kernel
    exact Nat.lt_of_le_of_lt (nearestRank_mono (Nat.mul_le_mul_right _ small) 1) largest
  refine ⟨⟨value < 0, nearestRank (value.natAbs * unitsInOne) 1, finite⟩, ?_, ?_⟩
  · rw [Binary64.ofInt?, Binary64.ofNat?, Binary64.nearest?, dif_pos finite]
    rfl
  · rw [← units_standardBound]
    change unitsOfRank _ < unitsOfRank _ ↔ _
    rw [unitsOfRank_strictMono.lt_iff_lt, ← nearestRank_thousand]
    constructor
    · intro beyond
      by_contra within
      have le : value.natAbs * unitsInOne ≤ 1000 * unitsInOne :=
        Nat.mul_le_mul_right _ (Nat.le_of_not_lt within)
      exact absurd beyond (Nat.not_lt_of_le (nearestRank_mono le 1))
    · intro beyond
      have next : nearestRank (1000 * unitsInOne) 1 < nearestRank (1001 * unitsInOne) 1 := by
        decide +kernel
      have le : 1001 * unitsInOne ≤ value.natAbs * unitsInOne :=
        Nat.mul_le_mul_right unitsInOne (Nat.succ_le_of_lt beyond)
      exact Nat.lt_of_lt_of_le next (nearestRank_mono le 1)

end Number

theorem thousand_lt_abs_iff (value : Int) : 1000 < |(value : ℚ)| ↔ 1000 < value.natAbs := by
  rw [← Int.cast_abs, Int.abs_eq_natAbs]
  norm_cast

theorem thousand_lt_abs_div_iff (value : Int) {units : Nat} (positive : 0 < units) :
    1000 < |(value / units : ℚ)| ↔ 1000 * units < value.natAbs := by
  have denominator : (0 : ℚ) < units := Nat.cast_pos.mpr positive
  rw [abs_div, abs_of_pos denominator, lt_div_iff₀ denominator, ← Int.cast_abs,
    Int.abs_eq_natAbs]
  norm_cast

theorem exceeds_of_toBinary64? {value : Json.Value} {nearest : Binary64}
    (found : value.toBinary64? = some nearest) (bound : Binary64) :
    Rule.exceeds bound value = bound.lt nearest.abs := by
  rw [Rule.exceeds, found]

/-- Rounding does not bring a number across the standard bound. -/
theorem exceeds_standardBound_iff (number : Json.Number) :
    Rule.exceeds Rule.standardBound (.number number) ↔ 1000 < |number.exact| := by
  cases number with
  | integer value fits =>
      obtain ⟨nearest, found, beyond⟩ := exists_ofInt? fits
      have rounded : (Json.Value.number (.integer value fits)).toBinary64? = some nearest := found
      rw [exceeds_of_toBinary64? rounded, standardBound_lt_abs_iff, beyond, Json.Number.exact,
        thousand_lt_abs_iff]
  | real value =>
      have magnitude : value.signedUnits.natAbs = value.units := by
        rw [Binary64.signedUnits]
        split <;> omega
      have unrounded : (Json.Value.number (.real value)).toBinary64? = some value := rfl
      rw [exceeds_of_toBinary64? unrounded, standardBound_lt_abs_iff, ← magnitude, Json.Number.exact,
        thousand_lt_abs_div_iff _ unitsInOne_pos]

/-- The samples of slots are within the bound. -/
theorem exact_sample_le {kind : SlotKind} {number : Json.Number}
    (sample : kind.sample = .number number) :
    |number.exact| ≤ 1000 := by
  cases kind with
  | number =>
      cases sample
      rw [Json.Number.exact, ← Int.cast_abs]
      norm_cast
  | _ => cases sample

/-! ## What is reported -/

theorem lastEdgeInto?_eq_none_iff {edges : List Edge} {id slot : String} :
    lastEdgeInto? edges id slot = none ↔ ∀ edge ∈ edges, edge.destination ≠ ⟨id, slot⟩ := by
  rw [lastEdgeInto?, List.getLast?_eq_none_iff, List.filter_eq_nil_iff]
  refine forall₂_congr fun edge _ => not_congr ?_
  rw [Bool.and_eq_true, beq_iff_eq, beq_iff_eq, Edge.destination, Endpoint.mk.injEq]

namespace Compiler

variable {compiler : Compiler} {graph : Graph} {wish : String}

/-- Whether a node with an arithmetic operation has a number beyond one thousand for a slot that no
edge leads to. -/
structure Oversized (compiler : Compiler) (graph : Graph) (node : Node) (signature : Signature)
    (slot : String) (number : Json.Number) : Prop where
  listed : node ∈ graph.nodes
  registered : compiler.registry.get? node.operation = some signature
  arithmetic : signature.category = "arithmetic"
  given : node.inputValue? slot = some (.number number)
  unwired : ∀ edge ∈ graph.resolved, edge.destination ≠ ⟨node.id, slot⟩
  large : 1000 < |number.exact|

/-- The problem that tells of a number that is too large. -/
def magnitudeProblem (graph : Graph) (node : Node) (signature : Signature) (slot : String)
    (number : Json.Number) : Problem :=
  .unsafeMagnitude (node.displayLabel (some signature)) (.number number)
    ((nodeContext graph node signature).slotLabel slot) Rule.standardBound

theorem isWired_nodeContext_eq_false_iff (node : Node) (signature : Signature) (slot : String) :
    (nodeContext graph node signature).isWired slot = false ↔
      ∀ edge ∈ graph.resolved, edge.destination ≠ ⟨node.id, slot⟩ := by
  rw [← lastEdgeInto?_eq_none_iff, NodeContext.isWired, OrderedMap.contains, nodeContext,
    Wiring.get?_into_ofEdges, Option.isSome_map, Option.isSome_eq_false_iff,
    Option.isNone_iff_eq_none]

/-- What the rule of too large numbers finds in a node. -/
theorem mem_check_safeMagnitude_iff {context : NodeContext} {problem : Problem} :
    problem ∈ (Rule.safeMagnitude Catalog.arithmeticCategory Rule.standardBound).check context ↔
      ∃ slot number, context.node.inputValue? slot = some (.number number) ∧
        context.isWired slot = false ∧ 1000 < |number.exact| ∧
        problem = .unsafeMagnitude context.label (.number number) (context.slotLabel slot)
          Rule.standardBound := by
  rw [Rule.safeMagnitude, List.mem_map]
  simp only [List.mem_filter, NodeContext.literalInputs, Bool.not_eq_true', Prod.exists]
  constructor
  · rintro ⟨slot, value, ⟨⟨entry, unwired⟩, beyond⟩, rfl⟩
    cases value with
    | number number =>
        exact ⟨slot, number, (OrderedMap.get?_eq_some_iff _ _ _).mpr entry, unwired,
          (exceeds_standardBound_iff number).mp beyond, rfl⟩
    | _ => cases beyond
  · rintro ⟨slot, number, given, unwired, large, rfl⟩
    exact ⟨slot, .number number,
      ⟨⟨(OrderedMap.get?_eq_some_iff _ _ _).mp given, unwired⟩,
        (exceeds_standardBound_iff number).mpr large⟩, rfl⟩

/-- Only rules tell of numbers that are too large. -/
theorem unsafeMagnitude_mem_problems_iff_rule
    {label slot : String} {value : Json.Value} {bound : Binary64} :
    .unsafeMagnitude label value slot bound ∈ compiler.problems graph ↔
      ∃ node ∈ graph.nodes, ∃ signature, compiler.registry.get? node.operation = some signature ∧
        .unsafeMagnitude label value slot bound ∈
          Validation.ruleProblems compiler.rules (nodeContext graph node signature) := by
  have notCycle : .unsafeMagnitude label value slot bound ∉
      if hasCycle graph.nodes graph.resolved then [Problem.cycle] else [] := by
    split <;> simp
  have notCrowded : .unsafeMagnitude label value slot bound ∉
      Validation.crowdedInputs compiler.registry graph graph.resolved := by
    intro member
    obtain ⟨_, _, impossible⟩ := List.mem_map.mp member
    cases impossible
  have notMissing : .unsafeMagnitude label value slot bound ∉ Validation.missingNodes graph := by
    intro member
    obtain ⟨_, _, inner⟩ := List.mem_flatMap.mp member
    obtain ⟨_, _, impossible⟩ := List.mem_map.mp inner
    cases impossible
  have ofNode : ∀ node, .unsafeMagnitude label value slot bound ∈
      compiler.nodeProblems graph node ↔
        ∃ signature, compiler.registry.get? node.operation = some signature ∧
          .unsafeMagnitude label value slot bound ∈
            Validation.ruleProblems compiler.rules (nodeContext graph node signature) := by
    intro node
    rw [nodeProblems, Validation.nodeProblems]
    cases registered : compiler.registry.get? node.operation with
    | none =>
        simp
    | some signature =>
        have notLacking : ∀ wires isEntry, .unsafeMagnitude label value slot bound ∉
            Validation.missingInputs signature (node.displayLabel (some signature)) wires
              isEntry := by
          intro wires isEntry
          rw [Validation.missingInputs]
          split <;> simp
        simp [notLacking, nodeContext]
  change _ ∈ _ ++ graph.nodes.flatMap (compiler.nodeProblems graph) ++ _ ++ _ ↔ _
  simp only [List.mem_append, List.mem_flatMap, ofNode]
  exact ⟨fun member => ((member.resolve_right notMissing).resolve_right notCrowded).resolve_left
    notCycle, fun found => Or.inl (Or.inl (Or.inr found))⟩

theorem mem_ruleProblems_standard_iff {context : NodeContext} {problem : Problem} :
    problem ∈ Validation.ruleProblems Rule.standard context ↔
      context.signature.category = "arithmetic" ∧
        problem ∈
          (Rule.safeMagnitude Catalog.arithmeticCategory Rule.standardBound).check context := by
  rw [Validation.ruleProblems, List.mem_flatMap]
  simp only [List.mem_filter, Rule.standard, List.mem_singleton, beq_iff_eq]
  constructor
  · rintro ⟨_, ⟨rfl, applies⟩, found⟩
    exact ⟨applies.symm, found⟩
  · rintro ⟨applies, found⟩
    exact ⟨_, ⟨rfl, applies.symm⟩, found⟩

/-- With the standard rules, exactly the numbers that are too large are reported so. -/
theorem unsafeMagnitude_mem_problems_iff
    (standardRules : compiler.rules = Rule.standard)
    {label slotLabel : String} {value : Json.Value} {bound : Binary64} :
    .unsafeMagnitude label value slotLabel bound ∈ compiler.problems graph ↔
      ∃ node signature slot number, compiler.Oversized graph node signature slot number ∧
        .unsafeMagnitude label value slotLabel bound =
          magnitudeProblem graph node signature slot number := by
  rw [unsafeMagnitude_mem_problems_iff_rule, standardRules]
  simp only [mem_ruleProblems_standard_iff, mem_check_safeMagnitude_iff,
    isWired_nodeContext_eq_false_iff]
  constructor
  · rintro ⟨node, listed, signature, registered, arithmetic, slot, number, given, unwired, large,
      same⟩
    exact ⟨node, signature, slot, number,
      ⟨listed, registered, arithmetic, given, unwired, large⟩, same⟩
  · rintro ⟨node, signature, slot, number, oversized, same⟩
    exact ⟨node, oversized.listed, signature, oversized.registered, oversized.arithmetic, slot,
      number, oversized.given, oversized.unwired, oversized.large, same⟩

/-! ## What is planned -/

/-- A slot holds a literal only if no edge leads to it. -/
theorem entryLiteral?_of_inputSource?
    {edges : List Edge} {node : Node} {slot : Slot} {names : NameTable} {isEntry : Bool}
    {value : Json.Value}
    (found : node.inputSource? names ((Wiring.ofEdges edges).into node.id) isEntry slot =
      some (.literal value)) :
    lastEdgeInto? edges node.id slot.id = none ∧ node.entryLiteral? slot = some value := by
  cases last : lastEdgeInto? edges node.id slot.id with
  | some edge =>
      rw [Node.inputSource?_of_edge last] at found
      cases found
  | none =>
      rw [Node.inputSource?_of_no_edge last] at found
      split at found
      · obtain ⟨_, literal, same⟩ := Option.map_eq_some_iff.mp found
        cases same
        exact ⟨rfl, literal⟩
      · cases found

/-- A large number in a slot is the node's own value, because samples are small. -/
theorem inputValue?_of_entryLiteral?
    {node : Node} {slot : Slot} {number : Json.Number}
    (literal : node.entryLiteral? slot = some (.number number))
    (large : 1000 < |number.exact|) :
    node.inputValue? slot.id = some (.number number) := by
  rw [Node.entryLiteral?] at literal
  split at literal
  · cases own : node.inputValue? slot.id with
    | some value =>
        rw [own] at literal
        exact literal
    | none =>
        rw [own] at literal
        exact absurd large (not_lt_of_ge (exact_sample_le (Option.some.inj literal)))
  · cases literal

/-- A large number that a plan binds is a value of the node for a declared slot without edges. -/
theorem oversized_of_mem_inputs
    {component : Component} {node : Node} {signature : Signature} {names : NameTable}
    (part : component.IsPart graph.nodes graph.edges)
    (member : node ∈ component.nodes)
    (registered : compiler.registry.get? node.operation = some signature)
    (arithmetic : signature.category = "arithmetic")
    {slot : String} {number : Json.Number}
    (bound : (slot, .literal (.number number)) ∈
      (component.planNode compiler.registry names node).inputs)
    (large : 1000 < |number.exact|) :
    compiler.Oversized graph node signature slot number ∧
      ∃ declared, signature.input? slot = some declared := by
  rw [part.planNode_eq member] at bound
  obtain ⟨declared, listed, rfl, source⟩ := Node.mem_inputs_plan.mp bound
  rw [Node.signature_of_registered registered] at listed
  obtain ⟨unwired, literal⟩ := entryLiteral?_of_inputSource? source
  constructor
  · exact ⟨(part.mem_nodes_iff.mp member).1, registered, arithmetic,
      inputValue?_of_entryLiteral? literal large, lastEdgeInto?_eq_none_iff.mp unwired, large⟩
  · rw [← Option.isSome_iff_exists, Signature.input?, List.find?_isSome]
    exact ⟨declared, listed, beq_self_eq_true declared.id⟩

/-- Whether the large numbers that the plan of an arithmetic node binds are all reported. -/
def ReportsBound (compiler : Compiler) (graph : Graph) (node : Node) (nodePlan : NodePlan) :
    Prop :=
  ∀ signature, compiler.registry.get? node.operation = some signature →
    signature.category = "arithmetic" →
      ∀ slot number, (slot, .literal (.number number)) ∈ nodePlan.inputs →
        1000 < |number.exact| →
          ∃ declared, signature.input? slot = some declared ∧
            .unsafeMagnitude (node.displayLabel (some signature)) (.number number) declared.label
              Rule.standardBound ∈ compiler.problems graph

theorem reportsBound_planNode
    (standardRules : compiler.rules = Rule.standard)
    {component : Component} {node : Node}
    (part : component.IsPart graph.nodes graph.edges)
    (member : node ∈ component.nodes)
    (names : NameTable) :
    compiler.ReportsBound graph node (component.planNode compiler.registry names node) := by
  intro signature registered arithmetic slot number bound large
  obtain ⟨oversized, declared, found⟩ :=
    oversized_of_mem_inputs part member registered arithmetic bound large
  refine ⟨declared, found, ?_⟩
  rw [unsafeMagnitude_mem_problems_iff standardRules]
  refine ⟨node, signature, slot, number, oversized, ?_⟩
  rw [magnitudeProblem, NodeContext.slotLabel, nodeContext, found]
  rfl

theorem message_unsafeMagnitude (label slot : String) (number : Json.Number) :
    (Problem.unsafeMagnitude label (.number number) slot Rule.standardBound).message =
      "Node \"" ++ label ++ "\": value " ++ number.text ++ " on input \"" ++ slot
        ++ "\" exceeds the safe magnitude of 1000 for tuple-length arithmetic" := by
  have bound : plainLayout.text Rule.standardBound = "1000" := by decide +kernel
  have final : "\" exceeds the safe magnitude of " ++ ("1000" ++ " for tuple-length arithmetic") =
      "\" exceeds the safe magnitude of 1000 for tuple-length arithmetic" := by
    decide
  unfold Problem.message
  dsimp only
  rw [bound, Json.Value.text]
  simp only [String.append_assoc, final]

/-- With the standard rules, every number beyond one thousand that is bound for an arithmetic node
is reported with the labels of its node and its slot. Whatever is so reported is a value of that
kind, in a slot that no edge leads to. -/
theorem magnitudes_reported
    (registry : Registry) (options : Options) (graph : Graph) (wish : String) :
    let compiler : Compiler := ⟨registry, options, Rule.standard⟩
    List.Forall₂
        (fun component plan =>
          List.Forall₂ (compiler.ReportsBound graph) component.nodes plan.nodes)
        (connectedComponents graph.nodes graph.edges)
        (compiler.compile graph wish).components ∧
      (∀ label value slotLabel bound,
        .unsafeMagnitude label value slotLabel bound ∈ compiler.problems graph →
          ∃ node signature slot number, compiler.Oversized graph node signature slot number ∧
            .unsafeMagnitude label value slotLabel bound =
              magnitudeProblem graph node signature slot number) ∧
      ∀ label slot number,
        (Problem.unsafeMagnitude label (.number number) slot Rule.standardBound).message =
          "Node \"" ++ label ++ "\": value " ++ number.text ++ " on input \"" ++ slot
            ++ "\" exceeds the safe magnitude of 1000 for tuple-length arithmetic" := by
  intro compiler
  refine ⟨?_, ?_, message_unsafeMagnitude⟩
  · rw [components_compile]
    apply forall₂_mapIdx
    intro component member place
    have part := isPart_of_mem member
    rw [Component.plan_nodes, List.forall₂_map_right_iff, List.forall₂_same]
    exact fun node inside => reportsBound_planNode rfl part inside _
  · exact fun _ _ _ _ => (unsafeMagnitude_mem_problems_iff rfl).mp

/-- An integer that rounding changes. -/
def inexact : Graph where
  nodes := [(Node.ofOperation "n" "Numbers.Add").withInputValue "a" (.ofInt 9007199254740993)]
  edges := []

theorem magnitudes_reported_inexact :
    1000 < |(Json.Number.integer 9007199254740993 (by decide)).exact| ∧
      .unsafeMagnitude "Add" (.ofInt 9007199254740993) "A" Rule.standardBound ∈
        (Compiler.mk .standard .standard Rule.standard).problems inexact := by
  have large : 1000 < |(Json.Number.integer 9007199254740993 (by decide)).exact| := by
    rw [Json.Number.exact, thousand_lt_abs_iff]
    decide
  refine ⟨large, ?_⟩
  have reported := (magnitudes_reported .standard .standard inexact "").1
  have components : connectedComponents inexact.nodes inexact.edges = [⟨inexact.nodes, []⟩] := rfl
  rw [components_compile, components, List.mapIdx_cons, List.mapIdx_nil,
    List.forall₂_cons, Component.plan_nodes] at reported
  cases reported.1 with
  | cons first _ =>
      obtain ⟨declared, found, member⟩ := first _ rfl rfl "a" _ List.mem_cons_self large
      have same : declared = Catalog.requiredInput "a" "A" .number := (Option.some.inj found).symm
      rwa [same] at member

end Compiler

end TypeGraph
