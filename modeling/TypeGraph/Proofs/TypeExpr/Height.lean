import Mathlib.Data.List.MinMax
import Mathlib.Order.Nat
import TypeGraph.Proofs.TypeExpr.Routes
import TypeGraph.Proofs.TypeExpr.Soundness
import TypeGraph.Proofs.TypeExpr.Spelling

/-!
# How high type expressions grow

The nesting that readers are allowed bounds how many types stand inside of each other, but for the
brackets behind a type: each pair of them puts the type in front one further inside, and the loop
that reads them takes as many as there are.
-/

namespace TypeGraph

namespace TypeExpr

/-! ## Heights -/

/-- The length of the longest chain of types that each stand directly inside of the one before. -/
def height (type : TypeExpr) : Nat :=
  (type.branches.attach.map fun branch => branch.val.type.height).foldr max 0 + 1
termination_by sizeOf type
decreasing_by exact sizeOf_branch branch.property

variable {type : TypeExpr} {bound : Nat}

theorem height_eq (type : TypeExpr) :
    type.height = (type.branches.map fun branch => branch.type.height).foldr max 0 + 1 := by
  rw [height]
  exact congrArg (fun heights => heights.foldr max 0 + 1)
    (List.attach_map_val (f := fun branch : Branch => branch.type.height))

theorem height_lt_of_branch {branch : Branch} (inside : branch ∈ type.branches) :
    branch.type.height < type.height := by
  rw [height_eq type]
  have listed := List.mem_map_of_mem (f := fun branch : Branch => branch.type.height) inside
  exact Nat.lt_succ_of_le (List.le_max_of_le listed (Nat.le_refl _))

theorem height_le_succ
    (inside : ∀ branch ∈ type.branches, branch.type.height ≤ bound) :
    type.height ≤ bound + 1 := by
  rw [height_eq type]
  refine Nat.succ_le_succ (List.max_le_of_forall_le _ bound fun height listed => ?_)
  obtain ⟨branch, member, rfl⟩ := List.mem_map.mp listed
  exact inside branch member

/-- Routes are shorter than the type is high. -/
theorem length_passed_lt_height (type : TypeExpr) (route : Route) :
    (type.passed route).length < type.height := by
  induction route generalizing type with
  | nil =>
      rw [height_eq]
      exact Nat.succ_pos _
  | cons step route inner =>
      rw [passed]
      split
      · rw [height_eq]
        exact Nat.succ_pos _
      · next branch taken =>
        have below := height_lt_of_branch (List.mem_of_getElem? taken)
        exact Nat.lt_of_le_of_lt (inner branch.type) below

theorem height_le_of_routes
    (short : ∀ route found, type.at? route = some found → route.length < bound) :
    type.height ≤ bound := by
  induction bound generalizing type with
  | zero =>
      exact absurd (short [] type rfl) (Nat.not_lt_zero _)
  | succ bound inner =>
      refine height_le_succ fun branch member => inner fun route found leads => ?_
      obtain ⟨step, taken⟩ := List.getElem?_of_mem member
      have longer := short (step :: route) found (by rw [at?_cons taken, leads])
      exact Nat.lt_of_succ_lt_succ longer

/-! ## Brackets behind types -/

/-- How many types on a route have brackets behind the next one. -/
def accesses (type : TypeExpr) (route : Route) : Nat :=
  (type.passed route).countP fun branch => branch.role = .accessed

/-- Whether no route passes more types than a bound, but for those that have brackets behind the
next one. -/
def NestsWithin (bound : Nat) (type : TypeExpr) : Prop :=
  ∀ route found, type.at? route = some found → route.length < bound + type.accesses route

theorem NestsWithin.height_le
    {most : Nat} (within : type.NestsWithin bound) (few : ∀ route, type.accesses route ≤ most) :
    type.height ≤ bound + most :=
  height_le_of_routes fun route found leads =>
    Nat.lt_of_lt_of_le (within route found leads) (Nat.add_le_add_left (few route) bound)

theorem NestsWithin.mono
    {greater : Nat} (within : type.NestsWithin bound) (le : bound ≤ greater) :
    type.NestsWithin greater := by
  intro route found leads
  exact Nat.lt_of_lt_of_le (within route found leads) (Nat.add_le_add_right le _)

/-- A type stands one further inside of the type around it, unless it has brackets behind it. -/
theorem nestsWithin_of_branches
    (inside : ∀ branch ∈ type.branches,
      branch.type.NestsWithin (if branch.role = .accessed then bound + 1 else bound)) :
    type.NestsWithin (bound + 1) := by
  intro route found leads
  cases route with
  | nil =>
      exact Nat.lt_of_lt_of_le (Nat.succ_pos bound) (Nat.le_add_right _ _)
  | cons step route =>
      obtain ⟨branch, taken, leads⟩ := exists_branch_of_at? leads
      have deeper := inside branch (List.mem_of_getElem? taken) route found leads
      rw [accesses, passed_cons taken, List.countP_cons, List.length_cons]
      rw [accesses] at deeper
      by_cases accessed : branch.role = .accessed
      · rw [if_pos accessed] at deeper
        rw [if_pos (decide_eq_true accessed)]
        omega
      · rw [if_neg accessed] at deeper
        omega

theorem nestsWithin_succ
    (inside : ∀ branch ∈ type.branches, branch.type.NestsWithin bound) :
    type.NestsWithin (bound + 1) := by
  refine nestsWithin_of_branches fun branch member => (inside branch member).mono ?_
  split
  · exact Nat.le_succ bound
  · exact Nat.le_refl bound

theorem nestsWithin_leaf (leaf : type.branches = []) (bound : Nat) :
    type.NestsWithin (bound + 1) := by
  refine nestsWithin_succ fun branch member => ?_
  rw [leaf] at member
  cases member

theorem nestsWithin_of_parts
    {role : Role} {parts : List TypeExpr}
    (branches : type.branches = parts.map (.free role))
    (inside : ∀ part ∈ parts, part.NestsWithin bound) :
    type.NestsWithin (bound + 1) := by
  refine nestsWithin_succ fun branch member => ?_
  rw [branches] at member
  obtain ⟨part, listed, rfl⟩ := List.mem_map.mp member
  exact inside part listed

theorem nestsWithin_joined
    {join : List TypeExpr → TypeExpr} {parts : List TypeExpr}
    (branches : (join parts).branches = parts.map (.free .part))
    (inside : ∀ part ∈ parts, part.NestsWithin bound) :
    (joined join parts).NestsWithin (bound + 1) := by
  unfold joined
  split
  · next part =>
    exact (inside part (List.mem_singleton_self _)).mono (Nat.le_succ bound)
  · exact nestsWithin_of_parts branches inside

theorem nestsWithin_function
    {typeParameters : List TypeParameter} {parameters : List Parameter} {result : TypeExpr}
    (first : ∀ parameter ∈ typeParameters, ∀ names,
      ∀ branch ∈ parameter.branches names, branch.type.NestsWithin bound)
    (second : ∀ parameter ∈ parameters, ∀ names,
      ∀ branch ∈ parameter.branches names, branch.type.NestsWithin bound)
    (last : result.NestsWithin bound) :
    (function typeParameters parameters result).NestsWithin (bound + 1) := by
  refine nestsWithin_succ fun branch member => ?_
  simp only [branches, List.mem_append, List.mem_flatMap, List.mem_singleton] at member
  rcases member with (⟨parameter, listed, member⟩ | ⟨parameter, listed, member⟩) | rfl
  · exact first parameter listed _ branch member
  · exact second parameter listed _ branch member
  · exact last

/-- Brackets behind a type leave the bound as it is. -/
theorem nestsWithin_access
    {base : TypeExpr} {index : Option TypeExpr}
    (owner : base.NestsWithin (bound + 1)) (inside : ∀ type ∈ index, type.NestsWithin bound) :
    (TypeReader.access base index).NestsWithin (bound + 1) := by
  refine nestsWithin_of_branches fun branch member => ?_
  cases index with
  | none =>
      rw [List.mem_singleton.mp member]
      exact owner
  | some index =>
      rcases List.mem_pair.mp member with rfl | rfl
      · exact owner
      · exact inside index rfl

end TypeExpr

/-! ## Readers -/

namespace TypeReader

open Reader TypeExpr

variable {α β : Type} {holds : α → Prop}

/-- Whether what a reader gives has a property. -/
abbrev Gives (reader : TypeReader α) (holds : α → Prop) : Prop :=
  Takes reader fun _ value => holds value

theorem Headed.forall {separator : Symbol} {tokens : List Token} {values : List α}
    (headed : Headed separator (fun _ value => holds value) tokens values) :
    ∀ value ∈ values, holds value := by
  induction headed with
  | done =>
      nofun
  | more first _ inner =>
      exact List.forall_mem_cons.mpr ⟨first, inner⟩

theorem Runs.forall {separators tokens : List Token} {values : List α}
    (runs : Runs separators (fun _ value => holds value) tokens values) :
    ∀ value ∈ values, holds value := by
  induction runs with
  | none =>
      nofun
  | last first =>
      exact List.forall_mem_singleton.mpr first
  | more first _ _ inner =>
      exact List.forall_mem_cons.mpr ⟨first, inner⟩

variable {type : TypeReader TypeExpr} {bound : Nat}

/-- Whether the branches of a part of a type are within a bound. -/
def BranchesWithin (bound : Nat) (branches : List Branch) : Prop :=
  ∀ branch ∈ branches, branch.type.NestsWithin bound

theorem gives_optionalType
    {lead : Token} {inClass : Lexeme → Bool} {holds : TypeExpr → Prop}
    (among : Among [lead] inClass) (types : Gives type holds) :
    Gives (optionalType (accept inClass) type) fun choice => ∀ value ∈ choice, holds value := by
  refine takes_accept_if among (fun _ _ => ?_) (takes_pure nofun)
  refine Takes.bind types fun _ value held => takes_pure ?_
  rintro _ ⟨⟩
  exact held

theorem gives_typeArguments {holds : TypeExpr → Prop} (types : Gives type holds) :
    Gives (typeArguments type) fun values => ∀ value ∈ values, holds value := by
  refine Takes.bind types fun _ first held => takes_acceptSymbol_if ?_ ?_
  · refine takes_expect_untilClosed (among_symbol .comma) types fun _ others runs => takes_pure ?_
    exact List.forall_mem_cons.mpr ⟨held, runs.forall⟩
  · exact takes_expect_bind (takes_pure (List.forall_mem_singleton.mpr held))

theorem gives_tupleElement (types : Gives type (NestsWithin bound)) :
    Gives (tupleElement type) (NestsWithin (bound + 1)) := by
  refine (takes_accept (among_symbol .ellipsis)).bind fun _ spread _ => ?_
  refine Takes.bind types fun _ tree within => ?_
  refine (takes_accept (among_symbol .question)).bind fun _ _ _ => takes_pure ?_
  cases spread with
  | false =>
      exact within.mono (Nat.le_succ bound)
  | true =>
      exact nestsWithin_succ fun branch member => List.mem_singleton.mp member ▸ within

theorem branchesWithin_of_optional
    {choice : Option TypeExpr} (inside : ∀ value ∈ choice, value.NestsWithin bound)
    (names : List String) (role : Role) :
    BranchesWithin bound (choice.toList.map (.under names role)) := by
  intro branch member
  obtain ⟨value, listed, rfl⟩ := List.mem_map.mp member
  exact inside value (Option.mem_toList.mp listed)

theorem gives_typeParameter (types : Gives type (NestsWithin bound)) :
    Gives (typeParameter type) fun tree => ∀ names, BranchesWithin bound (tree.branches names) := by
  refine takes_name_bind fun text => ?_
  refine Takes.bind (gives_optionalType (among_word "extends") types) fun _ constraint first => ?_
  refine Takes.bind (gives_optionalType (among_symbol .equals) types)
    fun _ default second => takes_pure fun names => ?_
  exact List.forall_mem_append.mpr
    ⟨branchesWithin_of_optional first names _, branchesWithin_of_optional second names _⟩

theorem gives_typeParameters (types : Gives type (NestsWithin bound)) :
    Gives (typeParameters type)
      fun trees => ∀ tree ∈ trees, ∀ names, BranchesWithin bound (tree.branches names) := by
  refine takes_acceptSymbol_if ?_ (takes_pure nofun)
  exact takes_expect_untilClosed (among_symbol .comma) (gives_typeParameter types)
    fun _ trees runs => takes_pure runs.forall

theorem gives_parameter (types : Gives type (NestsWithin bound)) :
    Gives (parameter type) fun tree => ∀ names, BranchesWithin bound (tree.branches names) := by
  refine (takes_accept (among_symbol .ellipsis)).bind fun _ _ _ => takes_name_bind fun text => ?_
  refine (takes_accept (among_symbol .question)).bind fun _ _ _ => ?_
  exact Takes.bind (gives_optionalType (among_symbol .colon) types)
    fun _ tree inside => takes_pure fun names => branchesWithin_of_optional inside names _

theorem gives_parameters (types : Gives type (NestsWithin bound)) :
    Gives (parameters type)
      fun trees => ∀ tree ∈ trees, ∀ names, BranchesWithin bound (tree.branches names) := by
  refine takes_expect_bind ?_
  exact takes_expect_untilClosed (among_symbol .comma) (gives_parameter types)
    fun _ trees runs => takes_pure runs.forall

/-- An assertion gives a type of its own. -/
theorem gives_result (types : Gives type (NestsWithin bound)) :
    Gives (result type) (NestsWithin (bound + 1)) := by
  have higher : Gives type (NestsWithin (bound + 1)) :=
    types.mono fun _ _ within => within.mono (Nat.le_succ bound)
  refine takes_nextTwo fun tokens => ?_
  split
  · refine takesFrom_skip_two (takes_acceptWord_if higher (takes_pure ?_))
    exact nestsWithin_leaf rfl bound
  · exact takesFrom_skip_two higher
  · exact Takes.takesFrom higher tokens

theorem gives_method (types : Gives type (NestsWithin bound)) :
    Gives (method type) (NestsWithin (bound + 2)) := by
  have higher : Gives type (NestsWithin (bound + 1)) :=
    types.mono fun _ _ within => within.mono (Nat.le_succ bound)
  refine Takes.bind (gives_typeParameters higher) fun _ trees first => ?_
  refine Takes.bind (gives_parameters higher) fun _ values second => takes_acceptSymbol_if ?_ ?_
  · exact Takes.bind (gives_result types) fun _ tree last => takes_pure
      (nestsWithin_function first second last)
  · exact takes_pure (nestsWithin_function first second (nestsWithin_leaf rfl bound))

theorem gives_propertyValue (types : Gives type (NestsWithin bound)) (key : String) :
    Gives (propertyValue type key) fun tree => BranchesWithin (bound + 2) tree.branches := by
  refine (takes_accept (among_symbol .question)).bind fun _ _ _ => ?_
  refine (takes_next _).bind fun _ _ _ => takes_if ?_ ?_
  · exact (gives_method types).bind fun _ tree within => takes_pure
      (List.forall_mem_singleton.mpr within)
  · refine takes_expect_bind (Takes.bind types fun _ tree within => takes_pure ?_)
    exact List.forall_mem_singleton.mpr (within.mono (Nat.le_add_right bound 2))

theorem gives_property (types : Gives type (NestsWithin bound)) :
    Gives (property type) fun tree => BranchesWithin (bound + 2) tree.branches := by
  refine takes_nextTwo fun tokens => ?_
  split
  · exact takesFrom_skip_one (gives_propertyValue types _)
  · exact takesFrom_skip_one (gives_propertyValue types _)
  · exact takesFrom_skip_one (gives_propertyValue types _)
  · exact (takes_unexpected _).takesFrom tokens

theorem gives_bracketedMember (types : Gives type (NestsWithin bound)) :
    Gives (bracketedMember type) fun tree => BranchesWithin bound tree.branches := by
  refine takes_name_bind fun text => takes_acceptWord_if ?_ ?_
  · refine Takes.bind types fun _ source first => ?_
    refine Takes.bind (gives_optionalType (among_word "as") types) fun _ rename second => ?_
    refine takes_expect_bind (takes_mappedModifier.bind fun _ _ _ => takes_expect_bind ?_)
    refine Takes.bind types fun _ value last => takes_pure ?_
    refine List.forall_mem_cons.mpr ⟨first, List.forall_mem_append.mpr ⟨?_, ?_⟩⟩
    · exact branchesWithin_of_optional second _ _
    · exact List.forall_mem_singleton.mpr last
  · refine takes_expect_bind (Takes.bind types fun _ key first => ?_)
    refine takes_expect_bind (takes_expect_bind ?_)
    refine Takes.bind types fun _ value last => takes_pure ?_
    exact List.forall_mem_cons.mpr ⟨first, List.forall_mem_singleton.mpr last⟩

theorem gives_member (types : Gives type (NestsWithin bound)) :
    Gives (member type) fun tree => BranchesWithin (bound + 2) tree.branches := by
  refine takes_readonlySign.bind fun _ _ _ => takes_readonlyWord.bind fun _ _ _ => ?_
  refine takes_acceptSymbol_if ?_ (gives_property types)
  refine (gives_bracketedMember types).mono fun _ tree inside branch member => ?_
  exact (inside branch member).mono (Nat.le_add_right bound 2)

/-! ## Types -/

/-- What the readers of a level give at a nesting. A level adds no more than a conditional, a union,
an intersection and one type inside of them. -/
structure GrowsWithin (nesting : Nat) (level : Level) : Prop where
  type : Gives level.type (NestsWithin (4 * nesting))
  operand : Gives level.operand (NestsWithin (4 * nesting + 1))

abbrev InnerGrows : Nat → Option Level → Prop :=
  Nested GrowsWithin

variable {nesting : Nat} {inner : Option Level}

theorem InnerGrows.within
    {read : Level → TypeReader α} (inside : InnerGrows nesting inner)
    (gives : ∀ less level, nesting = less + 1 → GrowsWithin less level →
      Gives (read level) holds) :
    Gives (within inner read) holds := by
  refine takes_within fun level same => ?_
  cases inside with
  | none =>
      cases same
  | some grows =>
      cases same
      exact gives _ _ rfl grows

theorem InnerGrows.reference (inside : InnerGrows nesting inner) :
    Gives (reference inner) (NestsWithin (4 * nesting + 1)) := by
  refine Takes.bind (parses_separated .dot (parses_name _)) fun _ path _ => ?_
  refine takes_acceptSymbol_if ?_ (takes_pure (nestsWithin_leaf rfl _))
  have arguments : Gives (TypeReader.within inner fun level => typeArguments level.type)
      fun values => ∀ value ∈ values, value.NestsWithin (4 * nesting) := by
    refine inside.within fun less level same grows => gives_typeArguments ?_
    exact grows.type.mono fun _ _ within => within.mono (by omega)
  exact Takes.bind arguments fun _ trees inside => takes_pure (nestsWithin_of_parts rfl inside)

theorem InnerGrows.tuple (inside : InnerGrows nesting inner) :
    Gives (tuple inner) (NestsWithin (4 * nesting + 1)) := by
  refine inside.within fun less level same grows => takes_expect_bind ?_
  refine takes_expect_untilClosed (among_symbol .comma) (gives_tupleElement grows.type)
    fun _ elements runs => takes_pure ?_
  exact (nestsWithin_of_parts rfl runs.forall).mono (by omega)

theorem InnerGrows.function (inside : InnerGrows nesting inner) :
    Gives (function inner) (NestsWithin (4 * nesting + 1)) := by
  refine inside.within fun less level same grows => ?_
  have higher : Gives level.type (NestsWithin (4 * less + 1)) :=
    grows.type.mono fun _ _ within => within.mono (Nat.le_succ _)
  refine Takes.bind (gives_typeParameters higher) fun _ trees first => ?_
  refine Takes.bind (gives_parameters higher) fun _ values second => takes_expect_bind ?_
  refine Takes.bind (gives_result grows.type) fun _ tree last => takes_pure ?_
  exact (nestsWithin_function first second last).mono (by omega)

theorem InnerGrows.object (inside : InnerGrows nesting inner) :
    Gives (object inner) (NestsWithin (4 * nesting + 1)) := by
  refine inside.within fun less level same grows => takes_expect_bind ?_
  refine takes_expect_untilClosed ((among_symbol .semicolon).or (among_symbol .comma))
    (gives_member grows.type) fun _ members runs => takes_pure ?_
  have every : ∀ branch ∈ (TypeExpr.object members).branches,
      branch.type.NestsWithin (4 * less + 2) := by
    intro branch member
    obtain ⟨tree, listed, inside⟩ := List.mem_flatMap.mp member
    exact runs.forall tree listed branch inside
  exact (nestsWithin_succ every).mono (by omega)

theorem InnerGrows.operationOrReference
    (inside : InnerGrows nesting inner) (word : String) (followers : List Token) :
    TakesFrom (.name word :: followers) (operationOrReference inner word followers.head?)
      fun _ tree => tree.NestsWithin (4 * nesting + 1) := by
  unfold TypeReader.operationOrReference
  split
  · have operands : Gives (TypeReader.within inner Level.operand) (NestsWithin (4 * nesting)) := by
      refine inside.within fun less level same grows => ?_
      exact grows.operand.mono fun _ _ within => within.mono (by omega)
    refine takesFrom_skip_one (Takes.bind operands fun _ tree within => takes_pure ?_)
    exact nestsWithin_succ (List.forall_mem_singleton.mpr within)
  · exact inside.reference.takesFrom _

theorem takesFrom_parenthesizedType
    {holds : TypeExpr → Prop} (types : Gives type holds) (followers : List Token) :
    TakesFrom (.symbol .openParen :: followers) (parenthesized type) fun _ tree => holds tree :=
  takesFrom_skip_one (Takes.bind types fun _ _ held => takes_expect_bind (takes_pure held))

theorem InnerGrows.primary
    (inside : InnerGrows nesting inner) (types : Gives type (NestsWithin (4 * nesting))) :
    Gives (primary type inner) (NestsWithin (4 * nesting + 1)) := by
  have leaf : ∀ {tree : TypeExpr}, tree.branches = [] → tree.NestsWithin (4 * nesting + 1) :=
    fun empty => nestsWithin_leaf empty _
  refine takes_nextTwo fun tokens => ?_
  split
  · exact takesFrom_skip_two (takes_pure (leaf rfl))
  · exact takesFrom_skip_one inside.function
  · exact takesFrom_skip_one inside.function
  · exact inside.operationOrReference _ _
  · exact takesFrom_skip_one (takes_pure (leaf rfl))
  · exact takesFrom_skip_one (takes_pure (leaf rfl))
  · exact inside.function.takesFrom _
  · refine takesFrom_remaining fun input => ?_
    split
    · exact inside.function.takesFrom _
    · exact takesFrom_parenthesizedType
        (types.mono fun _ _ within => within.mono (Nat.le_succ _)) _
  · refine takesFrom_skip_one (takes_nextTwo fun tokens => ?_)
    split
    · exact takesFrom_skip_one (takes_pure (leaf rfl))
    · exact (takes_unexpected _).takesFrom tokens
  · exact inside.tuple.takesFrom _
  · exact inside.object.takesFrom _
  · exact (takes_unexpected _).takesFrom tokens

theorem gives_accessBody {holds : TypeExpr → Prop} (types : Gives type holds) :
    Gives (accessBody type) fun index => ∀ value ∈ index, holds value := by
  refine takes_acceptSymbol_if (takes_pure nofun) ?_
  refine Takes.bind types fun _ value held => takes_expect_bind (takes_pure ?_)
  rintro _ ⟨⟩
  exact held

/-- However many brackets stand behind a type, they do not count. -/
theorem nestsWithin_foldl_access
    {base : TypeExpr} {indices : List (Option TypeExpr)}
    (owner : base.NestsWithin (bound + 1))
    (inside : ∀ index ∈ indices, ∀ value ∈ index, value.NestsWithin bound) :
    (indices.foldl access base).NestsWithin (bound + 1) := by
  induction indices generalizing base with
  | nil =>
      exact owner
  | cons index indices inner =>
      obtain ⟨first, others⟩ := List.forall_mem_cons.mp inside
      exact inner (nestsWithin_access owner first) others

theorem InnerGrows.suffixed
    (inside : InnerGrows nesting inner) (types : Gives type (NestsWithin (4 * nesting))) :
    Gives (suffixed type inner) (NestsWithin (4 * nesting + 1)) := by
  refine Takes.bind (inside.primary types) fun _ base owner => ?_
  refine (takes_separatedItems (gives_accessBody types)).bind fun _ indices headed => takes_pure ?_
  exact nestsWithin_foldl_access owner headed.forall

theorem gives_separated
    {separator : Symbol} {item : TypeReader α} (items : Gives item holds) :
    Gives (separated (isSymbol separator) item) fun values => ∀ value ∈ values, holds value := by
  refine Takes.bind items fun _ first held => ?_
  exact (takes_separatedItems items).bind fun _ others headed => takes_pure
    (List.forall_mem_cons.mpr ⟨held, headed.forall⟩)

theorem gives_joinedBy
    {kind : Symbol} {join : List TypeExpr → TypeExpr} {part : TypeReader TypeExpr}
    (branches : ∀ parts, (join parts).branches = parts.map (.free .part))
    (parts : Gives part (NestsWithin bound)) :
    Gives (joinedBy kind join part) (NestsWithin (bound + 1)) := by
  refine (takes_accept (among_symbol kind)).bind fun _ _ _ => ?_
  exact Takes.bind (gives_separated parts) fun _ values inside => takes_pure
    (nestsWithin_joined (branches values) inside)

theorem GrowsWithin.complete {level : Level} (grows : GrowsWithin nesting level) :
    Gives (complete level) (NestsWithin (4 * (nesting + 1))) := by
  have unions : Gives (union level.operand) (NestsWithin (4 * nesting + 3)) :=
    gives_joinedBy (fun _ => rfl) (gives_joinedBy (fun _ => rfl) grows.operand)
  have higher : Gives level.type (NestsWithin (4 * nesting + 3)) :=
    grows.type.mono fun _ _ within => within.mono (Nat.le_add_right _ 3)
  refine Takes.bind unions fun _ check first => takes_acceptWord_if ?_ (takes_pure ?_)
  · refine Takes.bind unions fun _ limit second => takes_expect_bind ?_
    refine Takes.bind higher fun _ whenTrue third => takes_expect_bind ?_
    refine Takes.bind higher fun _ whenFalse fourth => takes_pure ?_
    have every : BranchesWithin (4 * nesting + 3)
        (TypeExpr.conditional check limit whenTrue whenFalse).branches :=
      List.forall_mem_cons.mpr ⟨first, List.forall_mem_cons.mpr ⟨second,
        List.forall_mem_cons.mpr ⟨third, List.forall_mem_singleton.mpr fourth⟩⟩⟩
    exact nestsWithin_succ every
  · exact first.mono (Nat.le_succ _)

theorem growsWithin_level (nesting : Nat) : GrowsWithin nesting (level nesting) := by
  induction nesting with
  | zero =>
      have type : Gives (fail fun _ => .tooDeep) (NestsWithin 0) := takes_fail _
      have inside : InnerGrows 0 none := .none
      exact ⟨type, inside.suffixed type⟩
  | succ nesting grows =>
      have inside : InnerGrows (nesting + 1) (some (level nesting)) := .some grows
      exact ⟨grows.complete, inside.suffixed grows.complete⟩

theorem nestsWithin_of_ofLexemes
    {lexemes : List Lexeme} {type : TypeExpr}
    (spells : TypeExpr.ofLexemes? lexemes = .ok type) :
    type.NestsWithin (4 * greatestNesting) := by
  have ran := run_type_of_parse spells
  obtain ⟨taken, -, within⟩ := (growsWithin_level greatestNesting).type ran
  exact within

/-! ## Brackets without end -/

theorem run_separatedItems_arrays
    {count : Nat} {lexemes : List Lexeme}
    (tokens : lexemes.map Lexeme.token =
      (List.replicate count [Token.symbol .openBracket, .symbol .closeBracket]).flatten)
    (type : TypeReader TypeExpr) :
    (separatedItems (isSymbol .openBracket) (accessBody type)).run lexemes =
      .ok (List.replicate count none, []) := by
  induction count generalizing lexemes with
  | zero =>
      rw [List.map_eq_nil_iff.mp tokens, run_separatedItems]
      rfl
  | succ count inner =>
      rw [List.replicate_succ, List.flatten_cons] at tokens
      obtain ⟨first, _, rfl, opens, tokens⟩ := List.map_eq_cons_iff.mp tokens
      obtain ⟨second, rest, rfl, closes, tokens⟩ := List.map_eq_cons_iff.mp tokens
      have opened : isSymbol .openBracket first := beq_iff_eq.mpr opens
      have closed : isSymbol .closeBracket second := beq_iff_eq.mpr closes
      have body : (accessBody type).run (second :: rest) = .ok (none, rest) := by
        rw [accessBody, run_bind, acceptSymbol, run_accept_cons, if_pos closed]
        rfl
      rw [run_separatedItems_cons opened, separated, run_bind_ok body, run_bind_ok (inner tokens)]
      rfl

theorem run_suffixed_arrays
    {head : Lexeme} {rest : List Lexeme} {count : Nat}
    (token : head.token = .name "A")
    (tokens : rest.map Lexeme.token =
      (List.replicate count [Token.symbol .openBracket, .symbol .closeBracket]).flatten)
    (type : TypeReader TypeExpr) (inner : Option Level) :
    (suffixed type inner).run (head :: rest) =
      .ok ((List.replicate count none).foldl access (.named "A"), []) := by
  have next : ∀ second ∈ rest.head?, second.token = .symbol .openBracket := by
    intro second member
    cases count with
    | zero =>
        rw [List.map_eq_nil_iff.mp tokens] at member
        cases member
    | succ count =>
        rw [List.replicate_succ, List.flatten_cons] at tokens
        obtain ⟨first, _, rfl, opens, -⟩ := List.map_eq_cons_iff.mp tokens
        cases member
        exact opens
  have off : ∀ kind, kind ≠ .openBracket → ∀ second ∈ rest.head?, isSymbol kind second = false := by
    intro kind different second member
    rw [isSymbol, next second member, beq_eq_false_iff_ne]
    intro same
    exact different (Token.symbol.inj same).symm
  have base : (primary type inner).run (head :: rest) = .ok (.named "A", rest) := by
    have noDot := off .dot (by decide)
    have noLess := off .less (by decide)
    rw [run_primary_of_name token]
    · rw [reference, run_bind_ok (run_path token noDot), run_bind, acceptSymbol,
        run_accept_of_ne noLess]
      rfl
    · intro second member
      exact ⟨.openBracket, next second member, rfl, fun generic => absurd generic (by decide)⟩
  rw [suffixed, run_bind_ok base, run_bind_ok (run_separatedItems_arrays tokens type)]
  rfl

end TypeReader

namespace TypeExpr

/-- A name with pairs of brackets behind it. -/
def arrayText : Nat → String
  | 0 => "A"
  | count + 1 => arrayText count ++ "[]"

def arrayType : Nat → TypeExpr
  | 0 => .named "A"
  | count + 1 => .array (arrayType count)

theorem foldl_access_replicate (count : Nat) :
    (List.replicate count none).foldl TypeReader.access (.named "A") = arrayType count := by
  induction count with
  | zero =>
      rfl
  | succ count inner =>
      rw [List.replicate_succ', List.foldl_append, inner]
      rfl

theorem spells_arrayText (count : Nat) :
    Spells (arrayText count) (.name "A" ::
      (List.replicate count [Token.symbol .openBracket, .symbol .closeBracket]).flatten) := by
  induction count with
  | zero =>
      exact spells_name rfl
  | succ count inner =>
      have brackets : Closed "[]" [.symbol .openBracket, .symbol .closeBracket] := closed_marks rfl
      have whole := (inner.append_closed brackets rfl).spells
      rw [List.replicate_succ', List.flatten_append]
      exact whole

/-- Every number of brackets behind a name is read. -/
theorem parse_arrayText (count : Nat) : parse (arrayText count) = .ok (arrayType count) := by
  obtain ⟨lexemes, cut, tokens⟩ := (spells_arrayText count).exists_lexemes
  obtain ⟨head, rest, rfl, token, tokens⟩ := List.map_eq_cons_iff.mp tokens
  have operand : (TypeReader.level (greatestNesting - 1)).operand.run (head :: rest) =
      .ok (arrayType count, []) := by
    rw [TypeReader.operand_level, TypeReader.run_suffixed_arrays token tokens,
      foldl_access_replicate]
  have whole : (TypeReader.level greatestNesting).type.run (head :: rest) =
      .ok (arrayType count, []) := by
    have begins : head.token ≠ .symbol .pipe ∧ head.token ≠ .symbol .ampersand := by
      rw [token]
      exact ⟨nofun, nofun⟩
    refine TypeReader.run_type_of_operand begins operand fun _ _ same => ?_
    cases same
    rfl
  rw [parse, cut]
  change ofLexemes? _ = _
  rw [ofLexemes?, whole]

theorem height_arrayType (count : Nat) : (arrayType count).height = count + 1 := by
  induction count with
  | zero =>
      rw [height_eq]
      rfl
  | succ count inner =>
      rw [arrayType, height_eq, ← inner]
      exact congrArg (· + 1) (Nat.max_zero _)

/-- Types that are read are no higher than four times the nesting and the number of brackets that
stand behind a type on the way inside. -/
theorem height_le_of_parse
    {text : String} {type : TypeExpr} {most : Nat}
    (parsed : parse text = .ok type)
    (few : ∀ route, type.accesses route ≤ most) :
    type.height ≤ 4 * greatestNesting + most := by
  rw [parse] at parsed
  cases cut : Lexeme.ofTypeText text with
  | error error =>
      rw [cut] at parsed
      cases parsed
  | ok lexemes =>
      rw [cut] at parsed
      exact (TypeReader.nestsWithin_of_ofLexemes parsed).height_le few

theorem accesses_arrayType_le (count : Nat) (route : Route) :
    (arrayType count).accesses route ≤ count := by
  have short := length_passed_lt_height (arrayType count) route
  rw [height_arrayType] at short
  exact List.countP_le_length.trans (Nat.le_of_lt_succ short)

theorem height_le_of_parse_arrays :
    parse (arrayText 2048) = .ok (arrayType 2048) ∧
      (∀ route, (arrayType 2048).accesses route ≤ 2048) ∧
      (arrayType 2048).height ≤ 4 * greatestNesting + 2048 :=
  ⟨parse_arrayText 2048, accesses_arrayType_le 2048,
    height_le_of_parse (parse_arrayText 2048) (accesses_arrayType_le 2048)⟩

/-- Brackets behind a type make it as high as one likes. -/
theorem height_unbounded :
    parse (arrayText (16 * greatestNesting)) = .ok (arrayType (16 * greatestNesting)) ∧
      ¬ (arrayType (16 * greatestNesting)).height ≤ 16 * greatestNesting := by
  refine ⟨parse_arrayText _, ?_⟩
  rw [height_arrayType]
  exact Nat.not_succ_le_self _

end TypeExpr

end TypeGraph
