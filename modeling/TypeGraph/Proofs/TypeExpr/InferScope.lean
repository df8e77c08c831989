import TypeGraph.Proofs.TypeExpr.Scopes

/-!
# The scope of inferred names

The true branch of a conditional is in the scope of the names that are inferred in its bound, as far
as they are searched for. A name that is inferred only in the key type of an index signature, in the
source or the rename of a mapped member or at a type parameter is not found, and references to it in
the true branch are visited.
-/

namespace TypeGraph

namespace TypeExpr

variable {type check limit whenTrue whenFalse : TypeExpr} {route : Route} {name : String}

theorem refers_in_trueBranch
    (leads : type.at? route = some (.conditional check limit whenTrue whenFalse))
    {inside : Route} {path : List String}
    (refers : type.Refers (route ++ 2 :: inside) path) :
    whenTrue.Refers inside path := by
  obtain ⟨arguments, found⟩ := refers
  rw [at?_append, leads] at found
  exact ⟨arguments, found⟩

/-- A reference in the true branch of a conditional is visited unless its name is found in the
bound, or is bound by something else on the way. -/
theorem visited_in_trueBranch_iff
    (leads : type.at? route = some (.conditional check limit whenTrue whenFalse))
    {inside : Route} (refers : whenTrue.Refers inside [name]) :
    (route ++ 2 :: inside, [name]) ∈ type.visits ↔
      ¬ limit.InfersInSight name ∧
        ∀ branch ∈ type.passed route ++ whenTrue.passed inside, name ∉ branch.scope.names := by
  have whole : type.Refers (route ++ 2 :: inside) [name] := by
    obtain ⟨arguments, found⟩ := refers
    refine ⟨arguments, ?_⟩
    rw [at?_append, leads]
    exact found
  have way : type.passed (route ++ 2 :: inside) =
      type.passed route ++ ⟨.whenTrue, .inferred limit, whenTrue⟩ :: whenTrue.passed inside :=
    passed_append leads (2 :: inside)
  rw [mem_visits, and_iff_right whole, way, ← mem_inferredNames]
  simp only [unbound_named, List.forall_mem_append, List.forall_mem_cons, Scope.names]
  tauto

/-- No reference with some name is visited in the true branch of a conditional if and only if the
name is inferred in the bound where it is searched for, or all of these references are in the scope
of something else that binds it. -/
theorem trueBranch_hides_iff
    (leads : type.at? route = some (.conditional check limit whenTrue whenFalse)) (name : String) :
    (∀ inside, (route ++ 2 :: inside, [name]) ∉ type.visits) ↔
      limit.InfersInSight name ∨
        ∀ inside, whenTrue.Refers inside [name] →
          ∃ branch ∈ type.passed route ++ whenTrue.passed inside, name ∈ branch.scope.names := by
  constructor
  · intro hides
    by_cases found : limit.InfersInSight name
    · exact Or.inl found
    · refine Or.inr fun inside refers => ?_
      by_contra free
      apply hides inside
      rw [visited_in_trueBranch_iff leads refers]
      exact ⟨found, fun branch taken bound => free ⟨branch, taken, bound⟩⟩
  · intro bound inside visited
    have refers := refers_in_trueBranch leads (mem_visits.mp visited).1
    obtain ⟨notFound, free⟩ := (visited_in_trueBranch_iff leads refers).mp visited
    rcases bound with found | elsewhere
    · exact notFound found
    · obtain ⟨branch, taken, member⟩ := elsewhere inside refers
      exact free branch taken member

/-- The bound infers one name in an element and another one in the key type of a member. -/
def halfSeenLimit : TypeExpr :=
  .tuple [.infer "X", .object [.index "k" (.infer "Y") (.named "X")]]

def halfSeen : TypeExpr :=
  .tuple [.conditional (.named "A") halfSeenLimit (.tuple [.named "X", .named "Y"]) (.named "X")]

theorem trueBranch_hides_iff_halfSeen :
    halfSeen.at? [0] =
        some (.conditional (.named "A") halfSeenLimit (.tuple [.named "X", .named "Y"])
          (.named "X")) ∧
      (∀ inside, ([0] ++ 2 :: inside, ["X"]) ∉ halfSeen.visits) ∧
      ¬ ∀ inside, ([0] ++ 2 :: inside, ["Y"]) ∉ halfSeen.visits := by
  refine ⟨rfl, (trueBranch_hides_iff rfl "X").mpr (Or.inl ⟨[0], rfl, by decide⟩), fun hides => ?_⟩
  rcases (trueBranch_hides_iff rfl "Y").mp hides with found | elsewhere
  · exact absurd (mem_inferredNames.mpr found) (by decide)
  · obtain ⟨branch, taken, member⟩ := elsewhere [1] ⟨[], rfl⟩
    rcases List.mem_pair.mp taken with rfl | rfl <;> cases member

/-- The name is inferred in the source of a mapped member. -/
def overlookedText : String :=
  "T extends \x7b [K in infer X]: string \x7d ? X : never"

def overlookedLimit : TypeExpr :=
  .object [.mapped "K" (.infer "X") none (.named "string")]

def overlookedType : TypeExpr :=
  .conditional (.named "T") overlookedLimit (.named "X") (.named "never")

theorem infer_overlooked :
    parse overlookedText = .ok overlookedType ∧ overlookedLimit.InfersOutright "X" ∧
      ([2], ["X"]) ∈ overlookedType.visits ∧
      overlookedType.references = [["T"], ["string"], ["X"], ["never"]] := by
  refine ⟨by with_unfolding_all rfl, ⟨[0], rfl, by decide⟩, ?_, by decide⟩
  refine mem_visits.mpr ⟨⟨[], rfl⟩, fun branch taken => ?_⟩
  cases List.mem_singleton.mp taken
  exact unbound_named.mpr (by decide)

end TypeExpr

end TypeGraph
