import TypeGraph.Proofs.TypeExpr.Inference
import TypeGraph.Proofs.TypeExpr.Names

/-!
# The walk over references

The walk goes from a type into its branches and takes the names with it that are bound there. Its
visits are told by their routes, so that the same path at two routes is two visits. A reference is
visited unless it is one name that is bound in a branch on the way to it.
-/

namespace TypeGraph

namespace TypeExpr

/-- The path that a type refers to by itself, unless it is a bound name. -/
def ownPaths (bound : List String) : TypeExpr → List (List String)
  | .reference [name] _ => if name ∈ bound then [] else [[name]]
  | .reference path _ => [path]
  | _ => []

/-- Whether a path is no name out of some. -/
def Unbound (path : List String) (bound : List String) : Prop :=
  ∀ name, path = [name] → name ∉ bound

/-- Whether a route leads to a reference with some path. -/
def Refers (type : TypeExpr) (route : Route) (path : List String) : Prop :=
  ∃ arguments, type.at? route = some (.reference path arguments)

variable {bound : List String} {type : TypeExpr} {route : Route} {path : List String}

theorem unbound_named {name : String} : Unbound [name] bound ↔ name ∉ bound := by
  simp [Unbound]

theorem unbound_append {path : List String} {first second : List String} :
    Unbound path (first ++ second) ↔ Unbound path first ∧ Unbound path second := by
  simp only [Unbound, List.mem_append, not_or, imp_and, forall_and]

theorem mem_ownPaths_reference {own : List String} {arguments : List TypeExpr} :
    path ∈ (reference own arguments).ownPaths bound ↔ own = path ∧ Unbound path bound := by
  rcases own with _ | ⟨name, _ | ⟨second, rest⟩⟩
  · simp +contextual [ownPaths, Unbound, eq_comm]
  · rw [ownPaths]
    split
    · next member =>
      refine iff_of_false List.not_mem_nil ?_
      rintro ⟨rfl, unbound⟩
      exact unbound name rfl member
    · next absent =>
      rw [List.mem_singleton, eq_comm]
      refine (and_iff_left_of_imp ?_).symm
      rintro rfl
      exact unbound_named.mpr absent
  · rw [ownPaths, List.mem_singleton, eq_comm]
    · refine (and_iff_left_of_imp ?_).symm
      rintro rfl
      exact nofun
    · exact nofun

theorem mem_ownPaths :
    path ∈ type.ownPaths bound ↔ type.Refers [] path ∧ Unbound path bound := by
  cases type with
  | reference own arguments =>
      rw [mem_ownPaths_reference]
      simp [Refers, at?]
  | _ =>
      simp [ownPaths, Refers, at?]

theorem length_ownPaths (bound : List String) (type : TypeExpr) :
    (type.ownPaths bound).length ≤ 1 := by
  fun_cases ownPaths bound type <;> simp

end TypeExpr

/-- The references in a branch, where what it binds is bound besides. -/
def Branch.referencesWithin (bound : List String) (branch : Branch) : List (List String) :=
  branch.type.referencesWithin (branch.scope.names ++ bound)

theorem referencesOfAll_eq_branches (bound : List String) (role : Role) (types : List TypeExpr) :
    referencesOfAll bound types =
      (types.map (.free role)).flatMap (Branch.referencesWithin bound) := by
  rw [referencesOfAll_eq_flatMap, List.flatMap_map]
  rfl

theorem referencesOfOptional_eq_branches
    (bound names : List String) (role : Role) (choice : Option TypeExpr) :
    referencesOfOptional (names ++ bound) choice =
      (choice.toList.map (.under names role)).flatMap (Branch.referencesWithin bound) := by
  cases choice with
  | none =>
      rfl
  | some type =>
      exact (List.append_nil _).symm

theorem Member.referencesWithin_eq_branches (bound : List String) (member : Member) :
    member.referencesWithin bound = member.branches.flatMap (Branch.referencesWithin bound) := by
  cases member with
  | property | index =>
      simp [referencesWithin, branches, Branch.referencesWithin, Branch.free, Scope.names]
  | mapped key source rename value =>
      rw [referencesWithin, branches, List.flatMap_cons, List.flatMap_append,
        ← referencesOfOptional_eq_branches bound [key], List.flatMap_singleton, List.append_assoc]
      rfl

theorem TypeParameter.referencesWithin_eq_branches
    (bound names : List String) (parameter : TypeParameter) :
    parameter.referencesWithin (names ++ bound) =
      (parameter.branches names).flatMap (Branch.referencesWithin bound) := by
  cases parameter with
  | mk name constraint default =>
      rw [referencesWithin, branches, List.flatMap_append, ← referencesOfOptional_eq_branches,
        ← referencesOfOptional_eq_branches]

theorem Parameter.referencesWithin_eq_branches
    (bound names : List String) (parameter : Parameter) :
    parameter.referencesWithin (names ++ bound) =
      (parameter.branches names).flatMap (Branch.referencesWithin bound) := by
  cases parameter with
  | mk name type =>
      rw [referencesWithin, branches, ← referencesOfOptional_eq_branches]

namespace TypeExpr

/-- The walk over a type is the walk over its branches. -/
theorem referencesWithin_eq_branches (bound : List String) (type : TypeExpr) :
    type.referencesWithin bound =
      type.ownPaths bound ++ type.branches.flatMap (Branch.referencesWithin bound) := by
  cases type with
  | reference path arguments =>
      rw [branches, ← referencesOfAll_eq_branches]
      rcases path with _ | ⟨name, _ | _⟩
      · rfl
      · rw [referencesWithin, ownPaths]
        split <;> rfl
      · rfl
  | tuple parts | union parts | intersection parts =>
      exact referencesOfAll_eq_branches bound .part parts
  | object members =>
      rw [referencesWithin, branches, referencesOfMembers_eq_flatMap, List.flatMap_assoc]
      exact congrArg (members.flatMap ·) (funext (Member.referencesWithin_eq_branches bound))
  | array | rest | operation =>
      exact (List.append_nil _).symm
  | indexed owner index =>
      exact congrArg (owner.referencesWithin bound ++ ·) (List.append_nil _).symm
  | function typeParameters parameters result =>
      have typed := funext (TypeParameter.referencesWithin_eq_branches bound
        (typeParameters.map TypeParameter.name))
      have valued := funext (Parameter.referencesWithin_eq_branches bound
        (typeParameters.map TypeParameter.name))
      rw [referencesWithin, branches, referencesOfTypeParameters_eq_flatMap,
        referencesOfParameters_eq_flatMap, typed, valued]
      simp only [List.flatMap_append, List.flatMap_assoc, List.flatMap_singleton]
      rfl
  | conditional check limit whenTrue whenFalse =>
      rw [referencesWithin, branches]
      simp only [List.flatMap_cons, List.flatMap_nil, List.append_nil, List.append_assoc]
      rfl
  | string | number | infer =>
      rfl

/-! ## Visits -/

variable {bound : List String} {type : TypeExpr} {route : Route} {path : List String}

/-- The visits of the walk in the scope of some names: the routes and the paths of references. -/
def visitsWithin (bound : List String) (type : TypeExpr) : List (Route × List String) :=
  (type.ownPaths bound).map ([], ·) ++
    gather 0 (type.branches.attach.map fun ⟨branch, _⟩ =>
      branch.type.visitsWithin (branch.scope.names ++ bound))
termination_by sizeOf type
decreasing_by exact sizeOf_branch ‹_›

/-- The visits of the walk over a type. -/
def visits (type : TypeExpr) : List (Route × List String) :=
  type.visitsWithin []

theorem visitsWithin_eq (bound : List String) (type : TypeExpr) :
    type.visitsWithin bound =
      (type.ownPaths bound).map ([], ·) ++
        gather 0 (type.branches.map fun branch =>
          branch.type.visitsWithin (branch.scope.names ++ bound)) := by
  rw [visitsWithin, List.map_attach_eq_pmap, List.pmap_eq_map]

/-- The walk visits what the type refers to. -/
theorem map_snd_visitsWithin (bound : List String) (type : TypeExpr) :
    (type.visitsWithin bound).map Prod.snd = type.referencesWithin bound := by
  induction type using induction_branches generalizing bound with
  | step type inner =>
      rw [visitsWithin_eq, referencesWithin_eq_branches, List.map_append, List.map_map,
        map_snd_gather, List.flatMap_map]
      congr 1
      · exact List.map_id _
      · exact List.flatMap_congr fun branch inside => inner branch inside _

/-- A reference is visited in front of what is inside of it, and a branch in front of the next. -/
theorem pairwise_visitsWithin (bound : List String) (type : TypeExpr) :
    ((type.visitsWithin bound).map Prod.fst).Pairwise (· < ·) := by
  induction type using induction_branches generalizing bound with
  | step type inner =>
      rw [visitsWithin_eq, List.map_append, List.pairwise_append]
      refine ⟨?_, pairwise_gather ?_ 0, ?_⟩
      · have short := length_ownPaths bound type
        rcases own : type.ownPaths bound with _ | ⟨path, _ | ⟨second, rest⟩⟩
        · exact .nil
        · exact List.pairwise_singleton _ _
        · rw [own] at short
          exact absurd short (by simp)
      · rw [List.forall_mem_map]
        exact fun branch inside => inner branch inside _
      · intro left leftMember right rightMember
        obtain ⟨⟨_, _⟩, inOwn, rfl⟩ := List.mem_map.mp leftMember
        obtain ⟨_, _, same⟩ := List.mem_map.mp inOwn
        obtain ⟨⟨_, _⟩, inBranches, rfl⟩ := List.mem_map.mp rightMember
        obtain ⟨step, inside, _, _, rfl, _⟩ := mem_gather.mp inBranches
        cases same
        exact List.nil_lt_cons _ _

theorem refers_cons {step : Nat} :
    type.Refers (step :: route) path ↔
      ∃ branch, type.branches[step]? = some branch ∧ branch.type.Refers route path := by
  constructor
  · rintro ⟨arguments, leads⟩
    obtain ⟨branch, taken, leads⟩ := exists_branch_of_at? leads
    exact ⟨branch, taken, arguments, leads⟩
  · rintro ⟨branch, taken, arguments, leads⟩
    exact ⟨arguments, (at?_cons taken route).trans leads⟩

/-- Just the references are visited that are not bound from the start or on the way. -/
theorem mem_visitsWithin :
    (route, path) ∈ type.visitsWithin bound ↔
      type.Refers route path ∧ Unbound path bound ∧
        ∀ branch ∈ type.passed route, Unbound path branch.scope.names := by
  induction route generalizing type bound with
  | nil =>
      rw [visitsWithin_eq, List.mem_append, mem_gather]
      simp [passed, mem_ownPaths]
  | cons step route inner =>
      rw [visitsWithin_eq, List.mem_append, mem_gather, refers_cons]
      constructor
      · rintro (own | ⟨_, _, found, taken, same, held⟩)
        · obtain ⟨_, _, same⟩ := List.mem_map.mp own
          cases same
        · rw [Nat.zero_add] at same
          cases same
          rw [List.getElem?_map, Option.map_eq_some_iff] at taken
          obtain ⟨branch, branchTaken, rfl⟩ := taken
          obtain ⟨refers, unbound, rest⟩ := inner.mp held
          rw [unbound_append] at unbound
          rw [passed_cons branchTaken]
          refine ⟨⟨branch, branchTaken, refers⟩, unbound.2, ?_⟩
          exact List.forall_mem_cons.mpr ⟨unbound.1, rest⟩
      · rintro ⟨⟨branch, taken, refers⟩, unbound, rest⟩
        rw [passed_cons taken, List.forall_mem_cons] at rest
        have held := inner.mpr ⟨refers, unbound_append.mpr ⟨rest.1, unbound⟩, rest.2⟩
        refine Or.inr ⟨step, route, _, ?_, by rw [Nat.zero_add], held⟩
        rw [List.getElem?_map, taken]
        rfl

end TypeExpr

end TypeGraph
