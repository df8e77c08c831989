import TypeGraph.Proofs.Graph.Meaning
import TypeGraph.Proofs.Plan.Component

/-!
# Runs of plans

The steps of a plan are run in turn. A step reads the outputs of named steps and stores its own
under its name. Steps that read only earlier ones, and whose names differ, all succeed, and store
what the graph says that their nodes have.
-/

namespace TypeGraph

/-- The outputs stored so far, by name. -/
abbrev Environment (V : Type) :=
  OrderedMap String (Outputs V)

/-- Why a run stops. -/
inductive RunFault where
  | undefinedName (name : String)
  | redefinedName (name : String)
deriving DecidableEq, Repr

variable {V : Type}

/-- The value that an input takes from an environment. -/
def InputSource.value (meaning : Interpretation V) (environment : Environment V) :
    InputSource → Except RunFault (Option V)
  | .literal value => .ok (some (meaning.literal value))
  | .output source =>
    match environment.get? source.binding with
    | some outputs => .ok (outputs source.slot)
    | none => .error (.undefinedName source.binding)

/-- An input with the value that it takes from an environment. -/
def readInput (meaning : Interpretation V) (environment : Environment V)
    (input : String × InputSource) : Except RunFault (String × Option V) :=
  (input.2.value meaning environment).map fun value => (input.1, value)

/-- Runs one step. -/
def NodePlan.run (meaning : Interpretation V) (environment : Environment V) (step : NodePlan) :
    Except RunFault (Environment V) := do
  let inputs ← step.inputs.mapM (readInput meaning environment)
  if environment.contains step.binding then
    throw (.redefinedName step.binding)
  else
    return environment.insert step.binding (meaning.operation step.typeText inputs)

/-- Runs steps in turn. -/
def runSteps (meaning : Interpretation V) (steps : List NodePlan) (environment : Environment V) :
    Except RunFault (Environment V) :=
  steps.foldlM (NodePlan.run meaning) environment

/-- Whether an environment holds exactly the outputs of some steps. -/
structure Environment.Holds (outputs : String → Outputs V) (steps : List NodePlan)
    (environment : Environment V) : Prop where
  keys : environment.keys = steps.map NodePlan.binding
  values : ∀ step ∈ steps, environment.get? step.binding = some (outputs step.id)

variable {meaning : Interpretation V} {outputs : String → Outputs V} {steps : List NodePlan}
  {environment : Environment V} {step : NodePlan}

theorem runSteps_append_singleton
    {start : Environment V}
    (runs : runSteps meaning steps start = .ok environment)
    (step : NodePlan) :
    runSteps meaning (steps ++ [step]) start = step.run meaning environment := by
  rw [runSteps] at runs
  rw [runSteps, List.foldlM_append, runs]
  exact bind_pure (step.run meaning environment)

/-- A step that can read its inputs and has a name of its own stores its outputs. -/
theorem Environment.Holds.run
    (holds : environment.Holds outputs steps)
    {inputs : List (String × Option V)}
    (reads : step.inputs.mapM (readInput meaning environment) = .ok inputs)
    (fresh : step.binding ∉ steps.map NodePlan.binding)
    (gives : meaning.operation step.typeText inputs = outputs step.id) :
    ∃ later, step.run meaning environment = .ok later ∧ later.Holds outputs (steps ++ [step]) := by
  have unbound : ¬ environment.contains step.binding := by
    rw [OrderedMap.contains_iff, holds.keys]
    exact fresh
  refine ⟨environment.insert step.binding (outputs step.id), ?_, ?_, ?_⟩
  · rw [NodePlan.run, reads, ← gives]
    simp only [unbound]
    rfl
  · rw [OrderedMap.keys_insert, holds.keys, if_neg fresh, List.map_append, List.map_singleton]
  · intro other member
    rw [OrderedMap.get?_insert]
    rcases List.mem_append.mp member with earlier | last
    · have different : step.binding ≠ other.binding := by
        intro same
        exact fresh (same ▸ List.mem_map_of_mem earlier)
      rw [if_neg different]
      exact holds.values other earlier
    · rw [List.mem_singleton.mp last, if_pos rfl]

/-- Inputs are read one by one, and those that are left out are left out of the values. -/
theorem mapM_filterMap_of_rel {α β γ ε : Type} {source : α → Option β} {value : α → Option γ}
    {read : β → Except ε γ} {items : List α}
    (each : ∀ item ∈ items,
      Option.Rel (fun origin result => read origin = .ok result) (source item) (value item)) :
    (items.filterMap source).mapM read = .ok (items.filterMap value) := by
  induction items with
  | nil =>
      rfl
  | cons item rest inner =>
      have later := inner fun other member => each other (List.mem_cons_of_mem _ member)
      have first := each item List.mem_cons_self
      cases sourced : source item with
      | none =>
          cases valued : value item with
          | none =>
              rw [List.filterMap_cons_none sourced, List.filterMap_cons_none valued, later]
          | some result =>
              rw [sourced, valued] at first
              cases first
      | some origin =>
          cases valued : value item with
          | none =>
              rw [sourced, valued] at first
              cases first
          | some result =>
              rw [sourced, valued] at first
              cases first with
              | some reads =>
                  rw [List.filterMap_cons_some sourced, List.filterMap_cons_some valued,
                    List.mapM_cons, reads, later]
                  rfl

/-! ## Steps in the order of the edges -/

/-- Whether nodes stand behind all nodes that edges lead to them from. -/
def Follows (edges : List Edge) (nodes : List Node) : Prop :=
  ∀ before node after, nodes = before ++ node :: after →
    ∀ edge ∈ edges, edge.target = node.id → ∃ source ∈ before, source.id = edge.source

theorem Follows.of_append
    {edges : List Edge} {before after : List Node}
    (follows : Follows edges (before ++ after)) :
    Follows edges before := by
  rintro earlier node later rfl
  refine follows earlier node (later ++ after) ?_
  rw [List.append_assoc, List.cons_append]

theorem Follows.append
    {edges : List Edge} {before after : List Node}
    (first : Follows edges before)
    (second : Follows edges after) :
    Follows edges (before ++ after) := by
  intro earlier node later split edge member leads
  rcases List.append_eq_append_iff.mp split with ⟨middle, rfl, rest⟩ | ⟨middle, rfl, rest⟩
  · obtain ⟨source, inMiddle, same⟩ := second middle node later rest edge member leads
    exact ⟨source, List.mem_append_right _ inMiddle, same⟩
  · cases middle with
    | nil =>
        obtain ⟨source, impossible, _⟩ := second [] node later rest.symm edge member leads
        cases impossible
    | cons head tail =>
        rw [List.cons_append, List.cons.injEq] at rest
        obtain ⟨rfl, _⟩ := rest
        exact first earlier node tail rfl edge member leads

theorem follows_flatMap
    {α : Type} {edges : List Edge} {items : List α} {nodes : α → List Node}
    (each : ∀ item ∈ items, Follows edges (nodes item)) :
    Follows edges (items.flatMap nodes) := by
  induction items with
  | nil =>
      rintro before node after split
      exact absurd split.symm (by simp)
  | cons item rest inner =>
      rw [List.flatMap_cons]
      exact (each item List.mem_cons_self).append
        (inner fun other member => each other (List.mem_cons_of_mem _ member))

end TypeGraph
