import TypeGraph.TypeExpr.References

/-!
# Routes into a type expression

The types directly inside of a type are its branches. They stand in the order of the text, each with
the part that it plays and with what the type around it binds there. A route leads to a type from
the outside and is the list of the numbers of the branches to take. Routes are ordered as words are,
so that a type comes before what is inside of it, and that before what is inside of later branches.
-/

namespace TypeGraph

/-- The part that a type plays in the type around it. -/
inductive Role where
  | argument
  | part
  | tail
  | operand
  /-- What brackets behind it take an element or a property of. -/
  | accessed
  | index
  | value
  | keyType
  | source
  | rename
  | constraint
  | default
  | parameter
  | result
  | check
  | limit
  | whenTrue
  | whenFalse
deriving DecidableEq, Repr

/-- Whether it is a conditional that is around. -/
def Role.ofConditional : Role → Bool
  | check | limit | whenTrue | whenFalse => true
  | _ => false

/-- What a type binds in one of its branches. -/
inductive Scope where
  | nothing
  /-- Names of type parameters, or the key of a mapped member. -/
  | declared (names : List String)
  /-- The names that are inferred in the bound of a conditional. -/
  | inferred (limit : TypeExpr)

/-- The names that are bound. -/
def Scope.names : Scope → List String
  | nothing => []
  | declared names => names
  | inferred limit => limit.inferredNames

/-- A type directly inside of another. -/
structure Branch where
  role : Role
  scope : Scope
  type : TypeExpr

namespace Branch

def free (role : Role) (type : TypeExpr) : Branch :=
  ⟨role, .nothing, type⟩

def under (names : List String) (role : Role) (type : TypeExpr) : Branch :=
  ⟨role, .declared names, type⟩

end Branch

def TypeParameter.branches (names : List String) : TypeParameter → List Branch
  | .mk _ constraint default =>
    constraint.toList.map (.under names .constraint) ++ default.toList.map (.under names .default)

def Parameter.branches (names : List String) : Parameter → List Branch
  | .mk _ type => type.toList.map (.under names .parameter)

/-- The key of a mapped member is bound everywhere but in its source. -/
def Member.branches : Member → List Branch
  | .property _ value => [.free .value value]
  | .index _ keyType value => [.free .keyType keyType, .free .value value]
  | .mapped key source rename value =>
    .free .source source ::
      (rename.toList.map (.under [key] .rename) ++ [.under [key] .value value])

/-- The types directly inside of a type. All type parameters of a function are bound in all of its
branches. -/
def TypeExpr.branches : TypeExpr → List Branch
  | .reference _ arguments => arguments.map (.free .argument)
  | .tuple parts | .union parts | .intersection parts => parts.map (.free .part)
  | .object members => members.flatMap Member.branches
  | .array element => [.free .accessed element]
  | .indexed owner index => [.free .accessed owner, .free .index index]
  | .operation _ operand => [.free .operand operand]
  | .rest tail => [.free .tail tail]
  | .function typeParameters parameters result =>
    let names := typeParameters.map TypeParameter.name
    typeParameters.flatMap (TypeParameter.branches names) ++
      parameters.flatMap (Parameter.branches names) ++ [.under names .result result]
  | .conditional check limit whenTrue whenFalse =>
    [.free .check check, .free .limit limit, ⟨.whenTrue, .inferred limit, whenTrue⟩,
      .free .whenFalse whenFalse]
  | .string _ | .number _ | .infer _ => []

/-- A list of the numbers of branches, from the outside to the inside. -/
abbrev Route :=
  List Nat

namespace TypeExpr

/-- The type that a route leads to. -/
def at? (type : TypeExpr) : Route → Option TypeExpr
  | [] => some type
  | step :: route =>
    match type.branches[step]? with
    | none => none
    | some branch => branch.type.at? route

/-- The branches that a route takes. -/
def passed (type : TypeExpr) : Route → List Branch
  | [] => []
  | step :: route =>
    match type.branches[step]? with
    | none => []
    | some branch => branch :: branch.type.passed route

variable {type : TypeExpr} {branch : Branch} {step : Nat}

theorem at?_cons
    (taken : type.branches[step]? = some branch) (route : Route) :
    type.at? (step :: route) = branch.type.at? route := by
  rw [at?, taken]

theorem passed_cons
    (taken : type.branches[step]? = some branch) (route : Route) :
    type.passed (step :: route) = branch :: branch.type.passed route := by
  rw [passed, taken]

theorem exists_branch_of_at?
    {route : Route} {found : TypeExpr} (leads : type.at? (step :: route) = some found) :
    ∃ branch, type.branches[step]? = some branch ∧ branch.type.at? route = some found := by
  rw [at?] at leads
  split at leads
  · cases leads
  · next branch taken =>
    exact ⟨branch, taken, leads⟩

theorem at?_append (route behind : Route) :
    type.at? (route ++ behind) = (type.at? route).bind fun found => found.at? behind := by
  induction route generalizing type with
  | nil =>
      rfl
  | cons step route inner =>
      rw [List.cons_append, at?, at?]
      cases type.branches[step]? with
      | none =>
          rfl
      | some branch =>
          exact inner

theorem passed_append
    {route : Route} {found : TypeExpr}
    (leads : type.at? route = some found)
    (behind : Route) :
    type.passed (route ++ behind) = type.passed route ++ found.passed behind := by
  induction route generalizing type with
  | nil =>
      cases leads
      rfl
  | cons step route inner =>
      obtain ⟨branch, taken, leads⟩ := exists_branch_of_at? leads
      rw [List.cons_append, passed_cons taken, passed_cons taken, inner leads, List.cons_append]

/-! ## Recursion along branches -/

theorem sizeOf_of_toList
    {names : List String} {role : Role} {choice : Option TypeExpr}
    (inside : branch ∈ choice.toList.map (.under names role)) :
    sizeOf branch.type < sizeOf choice := by
  cases choice with
  | none =>
      cases inside
  | some type =>
      rw [List.mem_singleton.mp inside]
      simp only [Branch.under, Option.some.sizeOf_spec]
      omega

theorem sizeOf_member {member : Member} (inside : branch ∈ member.branches) :
    sizeOf branch.type < sizeOf member := by
  cases member with
  | property key value =>
      rw [List.mem_singleton.mp inside]
      simp only [Branch.free, Member.property.sizeOf_spec]
      omega
  | index key keyType value =>
      simp only [Member.branches, List.mem_cons, List.not_mem_nil, or_false] at inside
      rcases inside with rfl | rfl <;> simp only [Branch.free, Member.index.sizeOf_spec] <;> omega
  | mapped key source rename value =>
      simp only [Member.branches, List.mem_cons, List.mem_append, List.not_mem_nil, or_false]
        at inside
      rw [Member.mapped.sizeOf_spec]
      rcases inside with rfl | renamed | rfl
      · simp only [Branch.free]
        omega
      · have below := sizeOf_of_toList renamed
        omega
      · simp only [Branch.under]
        omega

theorem sizeOf_typeParameter
    {names : List String} {parameter : TypeParameter}
    (inside : branch ∈ parameter.branches names) :
    sizeOf branch.type < sizeOf parameter := by
  cases parameter with
  | mk name constraint default =>
      rw [TypeParameter.mk.sizeOf_spec]
      rcases List.mem_append.mp inside with constrained | defaulted
      · have below := sizeOf_of_toList constrained
        omega
      · have below := sizeOf_of_toList defaulted
        omega

theorem sizeOf_parameter
    {names : List String} {parameter : Parameter} (inside : branch ∈ parameter.branches names) :
    sizeOf branch.type < sizeOf parameter := by
  cases parameter with
  | mk name type =>
      have below := sizeOf_of_toList inside
      rw [Parameter.mk.sizeOf_spec]
      omega

theorem sizeOf_of_parts
    {role : Role} {parts : List TypeExpr} (inside : branch ∈ parts.map (.free role)) :
    sizeOf branch.type < sizeOf parts := by
  obtain ⟨part, listed, rfl⟩ := List.mem_map.mp inside
  exact List.sizeOf_lt_of_mem listed

theorem sizeOf_branch (inside : branch ∈ type.branches) : sizeOf branch.type < sizeOf type := by
  cases type with
  | reference path arguments =>
      have below := sizeOf_of_parts inside
      rw [reference.sizeOf_spec]
      omega
  | tuple parts | union parts | intersection parts =>
      have below := sizeOf_of_parts inside
      simp only [tuple.sizeOf_spec, union.sizeOf_spec, intersection.sizeOf_spec]
      omega
  | object members =>
      obtain ⟨member, listed, inside⟩ := List.mem_flatMap.mp inside
      have outer := List.sizeOf_lt_of_mem listed
      have below := sizeOf_member inside
      rw [object.sizeOf_spec]
      omega
  | array inner | rest inner =>
      rw [List.mem_singleton.mp inside]
      simp only [Branch.free, array.sizeOf_spec, rest.sizeOf_spec]
      omega
  | operation operator operand =>
      rw [List.mem_singleton.mp inside]
      simp only [Branch.free, operation.sizeOf_spec]
      omega
  | indexed owner index =>
      simp only [branches, List.mem_cons, List.not_mem_nil, or_false] at inside
      rcases inside with rfl | rfl <;> simp only [Branch.free, indexed.sizeOf_spec] <;> omega
  | function typeParameters parameters result =>
      simp only [branches, List.mem_append, List.mem_flatMap, List.mem_singleton] at inside
      rw [function.sizeOf_spec]
      rcases inside with (⟨parameter, listed, inside⟩ | ⟨parameter, listed, inside⟩) | rfl
      · have outer := List.sizeOf_lt_of_mem listed
        have below := sizeOf_typeParameter inside
        omega
      · have outer := List.sizeOf_lt_of_mem listed
        have below := sizeOf_parameter inside
        omega
      · simp only [Branch.under]
        omega
  | conditional check limit whenTrue whenFalse =>
      simp only [branches, List.mem_cons, List.not_mem_nil, or_false] at inside
      rcases inside with rfl | rfl | rfl | rfl <;>
        simp only [Branch.free, conditional.sizeOf_spec] <;> omega
  | string | number | infer =>
      cases inside

/-- What holds of a type as soon as it holds in all of its branches holds of every type. -/
theorem induction_branches
    {motive : TypeExpr → Prop}
    (step : ∀ type : TypeExpr, (∀ branch ∈ type.branches, motive branch.type) → motive type)
    (type : TypeExpr) :
    motive type :=
  step type fun branch _ => induction_branches step branch.type
termination_by sizeOf type
decreasing_by exact sizeOf_branch ‹_›

end TypeExpr

/-! ## Gathering from branches -/

section Gather

variable {α : Type}

/-- What is found in several branches, by routes from the outside. The first of the branches has a
given number. -/
def gather (first : Nat) : List (List (Route × α)) → List (Route × α)
  | [] => []
  | found :: others => found.map (Prod.map (first :: ·) id) ++ gather (first + 1) others

theorem map_snd_gather (first : Nat) (found : List (List (Route × α))) :
    (gather first found).map Prod.snd = found.flatMap (List.map Prod.snd) := by
  induction found generalizing first with
  | nil =>
      rfl
  | cons found others inner =>
      rw [gather, List.map_append, inner, List.flatMap_cons, List.map_map]
      rfl

theorem mem_gather {first : Nat} {found : List (List (Route × α))} {route : Route} {value : α} :
    (route, value) ∈ gather first found ↔
      ∃ step inside others, found[step]? = some others ∧ route = (first + step) :: inside ∧
        (inside, value) ∈ others := by
  induction found generalizing first with
  | nil =>
      simp [gather]
  | cons found others inner =>
      rw [gather, List.mem_append, inner]
      constructor
      · rintro (here | ⟨step, inside, later, taken, rfl, held⟩)
        · obtain ⟨⟨inside, value⟩, held, same⟩ := List.mem_map.mp here
          cases same
          exact ⟨0, inside, found, rfl, rfl, held⟩
        · exact ⟨step + 1, inside, later, taken, by rw [Nat.add_right_comm, Nat.add_assoc], held⟩
      · rintro ⟨step, inside, later, taken, rfl, held⟩
        cases step with
        | zero =>
            cases taken
            exact Or.inl (List.mem_map.mpr ⟨(inside, value), held, rfl⟩)
        | succ step =>
            exact Or.inr ⟨step, inside, later, taken,
              by rw [Nat.add_right_comm, Nat.add_assoc], held⟩

/-- What is found in order in each branch is in order as a whole. -/
theorem pairwise_gather
    {found : List (List (Route × α))}
    (each : ∀ others ∈ found, (others.map Prod.fst).Pairwise (· < ·)) (first : Nat) :
    ((gather first found).map Prod.fst).Pairwise (· < ·) := by
  induction found generalizing first with
  | nil =>
      exact .nil
  | cons found others inner =>
      obtain ⟨here, later⟩ := List.forall_mem_cons.mp each
      rw [gather, List.map_append, List.pairwise_append]
      refine ⟨?_, inner later (first + 1), ?_⟩
      · rw [List.map_map, List.pairwise_map]
        rw [List.pairwise_map] at here
        exact here.imp fun less => List.cons_lt_cons_iff.mpr (Or.inr ⟨rfl, less⟩)
      · intro left leftMember right rightMember
        obtain ⟨⟨_, _⟩, inFirst, rfl⟩ := List.mem_map.mp leftMember
        obtain ⟨_, _, same⟩ := List.mem_map.mp inFirst
        obtain ⟨⟨_, _⟩, inOthers, rfl⟩ := List.mem_map.mp rightMember
        obtain ⟨step, inside, _, _, rfl, _⟩ := mem_gather.mp inOthers
        cases same
        exact List.cons_lt_cons_iff.mpr (Or.inl (by omega))

end Gather

end TypeGraph
