/-!
# Sets of names

A set of texts as the list of its members in increasing order of code points, so that equal sets
are equal lists.
-/

namespace TypeGraph

/-- Puts a name in its place in an increasing list, unless it is there already. -/
def insertName (name : String) : List String → List String
  | [] => [name]
  | head :: rest =>
    if name < head then name :: head :: rest
    else if name = head then head :: rest
    else head :: insertName name rest

theorem mem_insertName {name other : String} {names : List String} :
    other ∈ insertName name names ↔ other = name ∨ other ∈ names := by
  induction names with
  | nil => simp [insertName]
  | cons head rest inner =>
    unfold insertName
    split
    · simp
    · split
      · next equality => simp [equality]
      · simp only [List.mem_cons, inner]
        exact or_left_comm

theorem pairwise_insertName (name : String) {names : List String}
    (increasing : names.Pairwise (· < ·)) : (insertName name names).Pairwise (· < ·) := by
  induction names with
  | nil => simp [insertName]
  | cons head rest inner =>
    have ⟨above, increasingRest⟩ := List.pairwise_cons.1 increasing
    unfold insertName
    split
    · next below =>
      refine List.pairwise_cons.2 ⟨?_, increasing⟩
      intro other member
      rcases List.mem_cons.1 member with rfl | member
      · exact below
      · exact String.lt_trans below (above other member)
    · split
      · exact increasing
      · next notBelow different =>
        refine List.pairwise_cons.2 ⟨?_, inner increasingRest⟩
        intro other member
        rcases mem_insertName.1 member with rfl | member
        · rcases Std.lt_trichotomy other head with below | equality | beyond
          · exact absurd below notBelow
          · exact absurd equality different
          · exact beyond
        · exact above other member

/-- A set of names. -/
structure NameSet where
  names : List String
  increasing : names.Pairwise (· < ·)
deriving DecidableEq

namespace NameSet

instance : Inhabited NameSet :=
  ⟨⟨[], .nil⟩⟩

/-- The set without members. -/
def empty : NameSet :=
  ⟨[], .nil⟩

/-- Whether there are no members. -/
def isEmpty (set : NameSet) : Bool :=
  set.names.isEmpty

/-- Whether a name is a member. -/
def contains (set : NameSet) (name : String) : Bool :=
  set.names.contains name

/-- The set with one more member. -/
def insert (set : NameSet) (name : String) : NameSet :=
  ⟨insertName name set.names, pairwise_insertName name set.increasing⟩

/-- The set with some more members. -/
def insertAll (set : NameSet) (names : List String) : NameSet :=
  names.foldl insert set

def ofList (names : List String) : NameSet :=
  empty.insertAll names

/-- The members of both sets. -/
def union (left right : NameSet) : NameSet :=
  left.insertAll right.names

theorem mem_insert {set : NameSet} {name other : String} :
    other ∈ (set.insert name).names ↔ other = name ∨ other ∈ set.names :=
  mem_insertName

theorem mem_insertAll {set : NameSet} {names : List String} {name : String} :
    name ∈ (set.insertAll names).names ↔ name ∈ names ∨ name ∈ set.names := by
  induction names generalizing set with
  | nil => simp [insertAll]
  | cons head rest inner =>
    have step : set.insertAll (head :: rest) = (set.insert head).insertAll rest := rfl
    rw [step, inner, mem_insert, List.mem_cons]
    exact or_left_comm.trans or_assoc.symm

end NameSet

end TypeGraph
