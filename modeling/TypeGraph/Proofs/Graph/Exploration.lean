import Mathlib.Data.List.Nodup
import TypeGraph.Graph.Component
import TypeGraph.Proofs.Graph.Walk

/-!
# The search for a component

A search keeps in step the ids that it has met, those that it has left and those on its stack. What
it has met, and no earlier search has, is left or on the stack, and never twice. The neighbors of an
id that has been left have all been met. Once the stack is empty the search has left exactly the ids
that are joined to the one that it began at.
-/

namespace TypeGraph

namespace Neighbors

/-- Whether a walk from neighbor to neighbor leads from one id to another. -/
def Joins (neighbors : Neighbors) : String → String → Prop :=
  Relation.ReflTransGen fun id other => other ∈ neighbors.around id

/-- Whether each id is a neighbor of its neighbors. -/
def Symmetric (neighbors : Neighbors) : Prop :=
  ∀ id, ∀ other ∈ neighbors.around id, id ∈ neighbors.around other

/-- Whether a list has all neighbors of the ids in it. -/
def Encloses (neighbors : Neighbors) (ids : List String) : Prop :=
  ∀ id ∈ ids, ∀ other ∈ neighbors.around id, other ∈ ids

theorem around_add (neighbors : Neighbors) (id other sought : String) :
    (neighbors.add id other).around sought =
      neighbors.around sought ++ if id = sought then [other] else [] := by
  by_cases same : id = sought
  · subst same
    simp [around, add, OrderedMap.get?_insert]
  · simp [around, add, OrderedMap.get?_insert, same]

theorem mem_around_ofEdges {edges : List Edge} {id other : String} :
    other ∈ (ofEdges edges).around id ↔
      ∃ edge ∈ edges,
        (edge.source = id ∧ edge.target = other) ∨ (edge.source = other ∧ edge.target = id) := by
  induction edges using List.reverseRecOn with
  | nil =>
      simp [ofEdges, around, OrderedMap.get?, OrderedMap.empty, entryAt?]
  | append_singleton edges edge inner =>
      have unfolded : ofEdges (edges ++ [edge]) =
          ((ofEdges edges).add edge.source edge.target).add edge.target edge.source := by
        simp [ofEdges]
      have onward : (other ∈ if edge.source = id then [edge.target] else []) ↔
          edge.source = id ∧ edge.target = other := by
        split <;> simp_all [eq_comm]
      have back : (other ∈ if edge.target = id then [edge.source] else []) ↔
          edge.source = other ∧ edge.target = id := by
        split <;> simp_all [eq_comm]
      rw [unfolded, around_add, around_add, List.mem_append, List.mem_append, inner, onward, back]
      simp only [List.mem_append, List.mem_singleton, or_and_right, exists_or, exists_eq_left,
        or_assoc]

theorem symmetric_ofEdges (edges : List Edge) : (ofEdges edges).Symmetric := by
  intro id other next
  obtain ⟨edge, member, ends⟩ := mem_around_ofEdges.mp next
  exact mem_around_ofEdges.mpr ⟨edge, member, ends.symm⟩

/-- The neighbors that resolved edges make are joined by walks along these edges. -/
theorem joins_ofEdges (nodes : List Node) (edges : List Edge) :
    (ofEdges (resolvedEdges nodes edges)).Joins = Joined (links nodes edges) := by
  have same : (fun id other => other ∈ (ofEdges (resolvedEdges nodes edges)).around id) =
      Relation.SymmGen (Leads (links nodes edges)) := by
    funext id other
    have either : Relation.SymmGen (Leads (links nodes edges)) id other ↔
        (id, other) ∈ links nodes edges ∨ (other, id) ∈ links nodes edges :=
      Iff.rfl
    rw [eq_iff_iff, mem_around_ofEdges, either, mem_links_iff, mem_links_iff, ← exists_or]
    exact exists_congr fun edge => and_or_left
  rw [Joins, same, Joined]

/-- A walk that begins in a list with all its neighbors stays there. -/
theorem Encloses.mem_of_joins
    {neighbors : Neighbors} {ids : List String} {id other : String}
    (encloses : neighbors.Encloses ids)
    (joins : neighbors.Joins id other)
    (member : id ∈ ids) :
    other ∈ ids := by
  induction joins with
  | refl =>
      exact member
  | tail _ next inner =>
      exact encloses _ inner _ next

end Neighbors

namespace Exploration

@[simp]
theorem members_meet (search : Exploration) (id : String) :
    (search.meet id).members = search.members := by
  rw [meet]
  split <;> rfl

theorem mem_visited_meet {search : Exploration} {id other : String} :
    other ∈ (search.meet id).visited ↔ other = id ∨ other ∈ search.visited := by
  rw [meet]
  split
  · next known =>
    exact (or_iff_right_of_imp fun same => same ▸ known).symm
  · exact List.mem_cons

/-! ## The invariant -/

/-- What holds of a search from `origin` when the ids in `before` had been met by then and those in
`pending` are still to be met. -/
structure Sound (neighbors : Neighbors) (before : List String) (origin : String)
    (pending : List String) (search : Exploration) : Prop where
  met : search.visited.Perm (search.members ++ search.stack ++ before)
  once : search.visited.Nodup
  begun : origin ∈ search.members ++ search.stack
  joined : ∀ id ∈ search.members ++ search.stack ++ pending, neighbors.Joins origin id
  followed : ∀ id ∈ search.members, ∀ other ∈ neighbors.around id,
    other ∈ search.visited ∨ other ∈ pending

variable {neighbors : Neighbors} {before pending ids : List String} {origin : String}
  {search : Exploration}

theorem sound_start (distinct : before.Nodup) (new : origin ∉ before) :
    Sound neighbors before origin [] (start before origin) where
  met := List.Perm.refl _
  once := List.nodup_cons.mpr ⟨new, distinct⟩
  begun := List.mem_singleton_self origin
  joined := by
    intro id member
    rw [List.mem_singleton.mp member]
    exact Relation.ReflTransGen.refl
  followed := by
    intro id member
    cases member

theorem Sound.meet
    {id : String}
    (sound : Sound neighbors before origin (id :: pending) search) :
    Sound neighbors before origin pending (search.meet id) := by
  have followed : ∀ left ∈ (search.meet id).members, ∀ other ∈ neighbors.around left,
      other ∈ (search.meet id).visited ∨ other ∈ pending := by
    intro left member other next
    rw [members_meet] at member
    rw [mem_visited_meet]
    rcases sound.followed left member other next with visited | awaited
    · exact .inl (.inr visited)
    · exact (List.mem_cons.mp awaited).imp_left .inl
  by_cases known : id ∈ search.visited
  · have unchanged : search.meet id = search := if_pos known
    rw [unchanged] at followed ⊢
    refine ⟨sound.met, sound.once, sound.begun, fun other member => sound.joined other ?_, followed⟩
    rw [List.mem_append] at member ⊢
    exact member.imp_right (List.mem_cons_of_mem id)
  · have grown : search.meet id =
        { search with visited := id :: search.visited, stack := id :: search.stack } := if_neg known
    have moved : (search.members ++ id :: search.stack).Perm
        (id :: (search.members ++ search.stack)) := List.perm_middle
    rw [grown] at followed ⊢
    refine ⟨?_, List.nodup_cons.mpr ⟨known, sound.once⟩, ?_, fun other member => sound.joined other ?_,
      followed⟩
    · exact (sound.met.cons id).trans (moved.append_right before).symm
    · exact moved.mem_iff.mpr (List.mem_cons_of_mem id sound.begun)
    · rw [List.perm_middle.mem_iff]
      exact (moved.append_right pending).mem_iff.mp member

theorem Sound.foldl_meet
    (sound : Sound neighbors before origin pending search) :
    Sound neighbors before origin [] (pending.foldl Exploration.meet search) := by
  induction pending generalizing search with
  | nil =>
      exact sound
  | cons id pending inner =>
      exact inner sound.meet

/-- The neighbors of the id that is left are still to be met. -/
theorem Sound.leave
    {id : String} {rest : List String}
    (sound : Sound neighbors before origin [] search)
    (stackShape : search.stack = id :: rest) :
    Sound neighbors before origin (neighbors.around id)
      { search with members := id :: search.members, stack := rest } := by
  have moved : (search.members ++ search.stack).Perm (id :: search.members ++ rest) := by
    rw [stackShape]
    exact List.perm_middle
  have reached : ∀ other ∈ id :: search.members ++ rest, neighbors.Joins origin other :=
    fun other member => sound.joined other (List.mem_append_left [] (moved.mem_iff.mpr member))
  constructor
  · exact sound.met.trans (moved.append_right before)
  · exact sound.once
  · exact moved.mem_iff.mp sound.begun
  · intro other member
    rcases List.mem_append.mp member with met | next
    · exact reached other met
    · exact (reached id List.mem_cons_self).tail next
  · intro left member other next
    rcases List.mem_cons.mp member with rfl | earlier
    · exact .inr next
    · rcases sound.followed left earlier other next with visited | awaited
      · exact .inl visited
      · cases awaited

theorem Sound.step (sound : Sound neighbors before origin [] search) :
    Sound neighbors before origin [] (search.step neighbors) := by
  rw [Exploration.step]
  split
  · exact sound
  · next id rest stackShape =>
    exact (sound.leave stackShape).foldl_meet

theorem Sound.after (sound : Sound neighbors before origin [] search) (steps : Nat) :
    Sound neighbors before origin [] (search.after neighbors steps) := by
  induction steps with
  | zero =>
      exact sound
  | succ steps inner =>
      exact inner.step

/-! ## The end of a search -/

@[simp]
theorem members_foldl_meet (search : Exploration) (ids : List String) :
    (ids.foldl meet search).members = search.members := by
  induction ids generalizing search with
  | nil =>
      rfl
  | cons id ids inner =>
      rw [List.foldl_cons, inner, members_meet]

/-- Each step leaves an id, as long as there is one on the stack. -/
theorem stack_eq_nil_or_length_members
    (neighbors : Neighbors) (search : Exploration) (steps : Nat) :
    (search.after neighbors steps).stack = [] ∨
      (search.after neighbors steps).members.length = search.members.length + steps := by
  induction steps with
  | zero =>
      exact .inr rfl
  | succ steps inner =>
      rw [after, step]
      split
      · next empty =>
        exact .inl empty
      · next id rest stackShape =>
        have left := inner.resolve_left (stackShape ▸ List.cons_ne_nil id rest)
        right
        rw [members_foldl_meet, List.length_cons, left, Nat.add_assoc]

/-- What a search has met of its own is among the ids that there are. -/
theorem Sound.length_le
    (sound : Sound neighbors before origin [] search)
    (encloses : neighbors.Encloses ids)
    (known : origin ∈ ids) :
    search.members.length + search.stack.length ≤ ids.length := by
  have distinct : (search.members ++ search.stack).Nodup :=
    (List.nodup_append.mp (sound.met.nodup_iff.mp sound.once)).1
  have inside : search.members ++ search.stack ⊆ ids := by
    intro id member
    exact encloses.mem_of_joins (sound.joined id (List.mem_append_left [] member)) known
  rw [← List.length_append]
  exact (distinct.subperm inside).length_le

/-- There is room for all ids that a search can meet. -/
theorem stack_after
    (distinct : before.Nodup)
    (new : origin ∉ before)
    (encloses : neighbors.Encloses ids)
    (known : origin ∈ ids) :
    ((start before origin).after neighbors ids.length).stack = [] := by
  have sound : Sound neighbors before origin [] ((start before origin).after neighbors ids.length) :=
    (sound_start distinct new).after ids.length
  have bound := sound.length_le encloses known
  rcases stack_eq_nil_or_length_members neighbors (start before origin) ids.length with empty | left
  · exact empty
  · have none : (start before origin).members.length = 0 := rfl
    exact List.length_eq_zero_iff.mp (by omega)

/-- A search that is over has left the ids that are joined to its origin. It cannot have missed one
because of an earlier search, which would have met the origin as well. -/
theorem Sound.mem_members_iff
    (sound : Sound neighbors before origin [] search)
    (empty : search.stack = [])
    (symmetric : neighbors.Symmetric)
    (closed : neighbors.Encloses before)
    {id : String} :
    id ∈ search.members ↔ neighbors.Joins origin id := by
  have met := sound.met
  have begun := sound.begun
  rw [empty, List.append_nil] at met begun
  have apart := (List.nodup_append.mp (met.nodup_iff.mp sound.once)).2.2
  constructor
  · intro member
    exact sound.joined id (List.mem_append_left _ (List.mem_append_left _ member))
  · intro joins
    induction joins with
    | refl =>
        exact begun
    | @tail left other _ next inner =>
        have visited := (sound.followed left inner other next).resolve_right List.not_mem_nil
        rcases List.mem_append.mp (met.mem_iff.mp visited) with here | earlier
        · exact here
        · have again := closed other earlier left (symmetric left other next)
          exact absurd rfl (apart left inner left again)

end Exploration

end TypeGraph
