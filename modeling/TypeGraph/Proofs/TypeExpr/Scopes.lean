import TypeGraph.Proofs.TypeExpr.Mentions
import TypeGraph.Proofs.TypeExpr.Visits

/-!
# Lexical scope

The walk over references follows lexical scope: a name is passed over where a type parameter or the
key of a mapped member declares it, and nothing but what is bound on the way to a reference decides
whether it is visited.
-/

namespace TypeGraph

namespace Scope

/-- Whether a name is that of a type parameter of the function, or of the key. -/
def Declares (scope : Scope) (name : String) : Prop :=
  ∃ names, scope = .declared names ∧ name ∈ names

/-- Whether a name is inferred anywhere in the bound of the conditional. -/
def Infers (scope : Scope) (name : String) : Prop :=
  ∃ limit, scope = .inferred limit ∧ limit.Infers name

theorem Declares.mem_names {scope : Scope} {name : String} (declares : scope.Declares name) :
    name ∈ scope.names := by
  obtain ⟨names, rfl, member⟩ := declares
  exact member

theorem declares_or_infers_of_mem_names
    {scope : Scope} {name : String} (member : name ∈ scope.names) :
    scope.Declares name ∨ scope.Infers name := by
  cases scope with
  | nothing =>
      cases member
  | declared names =>
      exact Or.inl ⟨names, rfl, member⟩
  | inferred limit =>
      exact Or.inr ⟨limit, rfl, TypeExpr.infers_of_mem_inferredNames member⟩

end Scope

namespace TypeExpr

variable {type : TypeExpr} {route : Route} {path : List String} {name : String}

theorem mem_visits :
    (route, path) ∈ type.visits ↔
      type.Refers route path ∧ ∀ branch ∈ type.passed route, Unbound path branch.scope.names := by
  rw [visits, mem_visitsWithin]
  simp [Unbound]

/-- Whether visits of the references of a type follow lexical scope. -/
structure FollowsScope (type : TypeExpr) (visits : List (Route × List String)) : Prop where
  paths : visits.map Prod.snd = type.references
  /-- No reference is visited twice, and none behind what is inside of it or to the right of it. -/
  ordered : (visits.map Prod.fst).Pairwise (· < ·)
  /-- Any text of the type has the paths in this order. -/
  written : ∀ tokens, Derives tokens (.type type) → Mentions tokens (visits.map Prod.snd)
  refers : ∀ route path, (route, path) ∈ visits → type.Refers route path
  qualified : ∀ route path, type.Refers route path → path.length ≠ 1 → (route, path) ∈ visits
  hidden : ∀ route name, (∃ branch ∈ type.passed route, branch.scope.Declares name) →
    (route, [name]) ∉ visits
  shown : ∀ route name, type.Refers route [name] →
    (∀ branch ∈ type.passed route, ¬ branch.scope.Declares name ∧ ¬ branch.scope.Infers name) →
    (route, [name]) ∈ visits
  /-- What is bound elsewhere than on the way to a reference is of no account. -/
  apart : ∀ (other : TypeExpr) (route otherRoute : Route) (path : List String),
    type.Refers route path → other.Refers otherRoute path →
    (type.passed route).map Branch.scope = (other.passed otherRoute).map Branch.scope →
    ((route, path) ∈ visits ↔ (otherRoute, path) ∈ other.visits)

theorem mem_visits_iff_scopes (refers : type.Refers route path) :
    (route, path) ∈ type.visits ↔
      ∀ scope ∈ (type.passed route).map Branch.scope, Unbound path scope.names := by
  rw [mem_visits, and_iff_right refers, List.forall_mem_map]

/-- The walk over any type follows lexical scope. -/
theorem followsScope_visits (type : TypeExpr) : FollowsScope type type.visits where
  paths := map_snd_visitsWithin [] type
  ordered := pairwise_visitsWithin [] type
  written := by
    intro tokens derives
    rw [visits, map_snd_visitsWithin]
    exact derives.mentions []
  refers := fun _ _ visited => (mem_visits.mp visited).1
  qualified := by
    intro route path refers several
    rw [mem_visits_iff_scopes refers]
    rintro scope _ name rfl
    exact absurd rfl several
  hidden := by
    rintro route name ⟨branch, taken, declares⟩ visited
    exact (mem_visits.mp visited).2 branch taken name rfl declares.mem_names
  shown := by
    intro route name refers free
    rw [mem_visits, and_iff_right refers]
    intro branch taken
    rw [unbound_named]
    intro member
    obtain ⟨noDeclared, noInferred⟩ := free branch taken
    exact (Scope.declares_or_infers_of_mem_names member).elim noDeclared noInferred
  apart := by
    intro other route otherRoute path refers otherRefers same
    rw [mem_visits_iff_scopes refers, mem_visits_iff_scopes otherRefers, same]

/-- A mapped key with the name of a type parameter, whose names come back behind the member, behind
the function and in its default, and a name that is inferred in one branch only. -/
def shadowing : TypeExpr :=
  .union [
    .function [.mk "T" (some (.reference ["T", "U"] [])) (some (.named "K"))]
      [.mk "a" (some (.object [.mapped "K" (.named "K") (some (.named "T")) (.named "K"),
        .property "T" (.named "K")]))]
      (.reference ["F"] [.named "T"]),
    .conditional (.named "T") (.array (.infer "X")) (.named "X") (.named "X")]

theorem followsScope_visits_shadowing :
    FollowsScope shadowing shadowing.visits ∧
      shadowing.references = [["T", "U"], ["K"], ["K"], ["K"], ["F"], ["T"], ["X"]] :=
  ⟨followsScope_visits shadowing, by decide⟩

end TypeExpr

end TypeGraph
