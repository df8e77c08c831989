import TypeGraph.Proofs.TypeExpr.Routes

/-!
# Inferred names

Where in the bound of a conditional a name has to be inferred for the true branch to know of it: not
inside of another conditional, which keeps its names to itself, and not in one of the parts that the
search passes over.
-/

namespace TypeGraph

namespace Role

/-- Whether the search for inferred names passes over the part: the key type of an index signature,
the source and the rename of a mapped member, and what stands at a type parameter. -/
def overlooked : Role → Bool
  | keyType | source | rename | constraint | default => true
  | _ => false

/-- Whether names that are inferred in the part are inferred in the type around it. -/
def searched (role : Role) : Bool :=
  !role.ofConditional && !role.overlooked

end Role

namespace TypeExpr

/-- Whether a name is inferred in a type by a way on which every part is of some kinds. -/
def InfersAlong (roles : Role → Bool) (type : TypeExpr) (name : String) : Prop :=
  ∃ route, type.at? route = some (.infer name) ∧ ∀ branch ∈ type.passed route, roles branch.role

/-- Whether a name is inferred in a type outside of nested conditionals. -/
def InfersOutright (type : TypeExpr) (name : String) : Prop :=
  type.InfersAlong (fun role => !role.ofConditional) name

/-- Whether a name is inferred in a type where it is searched for. -/
def InfersInSight (type : TypeExpr) (name : String) : Prop :=
  type.InfersAlong Role.searched name

/-- Whether a name is inferred somewhere in a type. -/
def Infers (type : TypeExpr) (name : String) : Prop :=
  ∃ route, type.at? route = some (.infer name)

variable {roles : Role → Bool} {type : TypeExpr} {name : String}

theorem infersAlong_iff :
    type.InfersAlong roles name ↔
      type = .infer name ∨
        ∃ branch ∈ type.branches, roles branch.role ∧ branch.type.InfersAlong roles name := by
  constructor
  · rintro ⟨_ | ⟨step, route⟩, leads, along⟩
    · cases leads
      exact Or.inl rfl
    · obtain ⟨branch, taken, leads⟩ := exists_branch_of_at? leads
      rw [passed_cons taken, List.forall_mem_cons] at along
      exact Or.inr ⟨branch, List.mem_of_getElem? taken, along.1, route, leads, along.2⟩
  · rintro (rfl | ⟨branch, inside, role, route, leads, along⟩)
    · exact ⟨[], rfl, List.forall_mem_nil _⟩
    · obtain ⟨step, taken⟩ := List.getElem?_of_mem inside
      refine ⟨step :: route, ?_, ?_⟩
      · rw [at?_cons taken, leads]
      · rw [passed_cons taken]
        exact List.forall_mem_cons.mpr ⟨role, along⟩

theorem InfersInSight.infers (infers : type.InfersInSight name) : type.Infers name :=
  let ⟨route, leads, _⟩ := infers
  ⟨route, leads⟩

/-! ## The search -/

/-- The name that a type infers by itself. -/
def ownInferred : TypeExpr → List String
  | .infer name => [name]
  | _ => []

theorem mem_ownInferred : name ∈ type.ownInferred ↔ type = .infer name := by
  cases type <;> simp [ownInferred, eq_comm]

end TypeExpr

/-- The names that are inferred in a branch, as far as they are searched for. -/
def Branch.inferredNames (branch : Branch) : List String :=
  if branch.role.searched then branch.type.inferredNames else []

theorem inferredNamesOfAll_eq_flatMap {role : Role} (searched : role.searched)
    (types : List TypeExpr) :
    inferredNamesOfAll types = (types.map (.free role)).flatMap Branch.inferredNames := by
  induction types with
  | nil =>
      rfl
  | cons type types inner =>
      rw [inferredNamesOfAll, inner, List.map_cons, List.flatMap_cons, Branch.inferredNames,
        Branch.free, if_pos searched]

theorem Member.inferredNames_eq_flatMap (member : Member) :
    member.inferredNames = member.branches.flatMap Branch.inferredNames := by
  cases member with
  | property | index =>
      exact (List.append_nil _).symm
  | mapped key source rename value =>
      cases rename <;> exact (List.append_nil _).symm

theorem inferredNamesOfMembers_eq_flatMap (members : List Member) :
    inferredNamesOfMembers members =
      (members.flatMap Member.branches).flatMap Branch.inferredNames := by
  induction members with
  | nil =>
      rfl
  | cons member members inner =>
      rw [inferredNamesOfMembers, inner, List.flatMap_cons, List.flatMap_append,
        member.inferredNames_eq_flatMap]

theorem Parameter.inferredNames_eq_flatMap (names : List String) (parameter : Parameter) :
    parameter.inferredNames = (parameter.branches names).flatMap Branch.inferredNames := by
  rcases parameter with ⟨_, _ | type⟩
  · rfl
  · exact (List.append_nil _).symm

theorem inferredNamesOfParameters_eq_flatMap (names : List String) (parameters : List Parameter) :
    inferredNamesOfParameters parameters =
      (parameters.flatMap (Parameter.branches names)).flatMap Branch.inferredNames := by
  induction parameters with
  | nil =>
      rfl
  | cons parameter parameters inner =>
      rw [inferredNamesOfParameters, inner, List.flatMap_cons, List.flatMap_append,
        parameter.inferredNames_eq_flatMap names]

/-- Nothing is searched for at type parameters. -/
theorem TypeParameter.flatMap_inferredNames
    (names : List String) (parameters : List TypeParameter) :
    (parameters.flatMap (TypeParameter.branches names)).flatMap Branch.inferredNames = [] := by
  induction parameters with
  | nil =>
      rfl
  | cons parameter parameters inner =>
      rw [List.flatMap_cons, List.flatMap_append, inner]
      rcases parameter with ⟨_, _ | constraint, _ | default⟩ <;> rfl

namespace TypeExpr

theorem inferredNames_eq_flatMap (type : TypeExpr) :
    type.inferredNames = type.ownInferred ++ type.branches.flatMap Branch.inferredNames := by
  cases type with
  | reference _ types | tuple types | union types | intersection types =>
      exact inferredNamesOfAll_eq_flatMap rfl types
  | object members =>
      exact inferredNamesOfMembers_eq_flatMap members
  | array | rest | operation =>
      exact (List.append_nil _).symm
  | indexed owner index =>
      exact congrArg (owner.inferredNames ++ ·) (List.append_nil _).symm
  | function typeParameters parameters result =>
      rw [inferredNames, branches, List.flatMap_append, List.flatMap_append,
        TypeParameter.flatMap_inferredNames, ← inferredNamesOfParameters_eq_flatMap]
      exact congrArg (_ ++ ·) (List.append_nil _).symm
  | conditional | string | number | infer =>
      rfl

/-- The names that are found are those inferred outside of nested conditionals and of what is
overlooked. -/
theorem mem_inferredNames {type : TypeExpr} {name : String} :
    name ∈ type.inferredNames ↔ type.InfersInSight name := by
  induction type using induction_branches with
  | step type inner =>
      rw [InfersInSight, infersAlong_iff, inferredNames_eq_flatMap]
      rw [List.mem_append, mem_ownInferred, List.mem_flatMap]
      refine or_congr_right (exists_congr fun branch => and_congr_right fun inside => ?_)
      rw [← InfersInSight, ← inner branch inside, Branch.inferredNames]
      cases branch.role.searched <;> simp

theorem infers_of_mem_inferredNames
    {type : TypeExpr} {name : String} (member : name ∈ type.inferredNames) : type.Infers name :=
  (mem_inferredNames.mp member).infers

end TypeExpr

end TypeGraph
