import Mathlib.Data.List.Nodup

/-!
# One item in front of another

In a list that holds no item twice, two different items stand in one of two orders. What keeps a
part of a list keeps the orders of its items.
-/

namespace TypeGraph

/-- Whether one item of a list stands in front of another. The order is meant for lists that hold
no item twice. -/
def Precedes {α : Type} (left right : α) (items : List α) : Prop :=
  [left, right].Sublist items

instance {α : Type} [DecidableEq α] (left right : α) (items : List α) :
    Decidable (Precedes left right items) :=
  inferInstanceAs (Decidable ([left, right].Sublist items))

section Lists

variable {α β : Type} {left right : α} {items : List α}

theorem Precedes.left_mem (order : Precedes left right items) : left ∈ items :=
  order.subset List.mem_cons_self

theorem Precedes.right_mem (order : Precedes left right items) : right ∈ items :=
  order.subset (List.mem_cons_of_mem left List.mem_cons_self)

/-- What stands in a list stands in a list that has it as a part. -/
theorem Precedes.of_sublist
    {more : List α}
    (order : Precedes left right items)
    (part : items.Sublist more) :
    Precedes left right more :=
  order.trans part

theorem precedes_append
    {before after : List α}
    (leftMember : left ∈ before)
    (rightMember : right ∈ after) :
    Precedes left right (before ++ after) :=
  (List.singleton_sublist.mpr leftMember).append (List.singleton_sublist.mpr rightMember)

theorem Precedes.exists_append (order : Precedes left right items) :
    ∃ before after, items = before ++ after ∧ left ∈ before ∧ right ∈ after := by
  obtain ⟨before, after, split, leftMember, rest⟩ := List.cons_sublist_iff.mp order
  exact ⟨before, after, split, leftMember, List.singleton_sublist.mp rest⟩

theorem Precedes.map (order : Precedes left right items) (image : α → β) :
    Precedes (image left) (image right) (items.map image) :=
  List.Sublist.map image order

theorem Precedes.filter
    {keep : α → Bool}
    (order : Precedes left right items)
    (leftKept : keep left)
    (rightKept : keep right) :
    Precedes left right (items.filter keep) := by
  have kept := List.Sublist.filter keep order
  rwa [List.filter_cons_of_pos leftKept, List.filter_cons_of_pos rightKept, List.filter_nil] at kept

/-- One item of two that differ stands in front of the other. -/
theorem precedes_or_precedes
    (leftMember : left ∈ items)
    (rightMember : right ∈ items)
    (different : left ≠ right) :
    Precedes left right items ∨ Precedes right left items := by
  obtain ⟨before, after, rfl⟩ := List.append_of_mem leftMember
  rcases List.mem_append.mp rightMember with earlier | later
  · exact Or.inr (precedes_append earlier List.mem_cons_self)
  · have behind := (List.mem_cons.mp later).resolve_left fun same => different same.symm
    left
    rw [List.append_cons]
    exact precedes_append (List.mem_append_right before (List.mem_singleton_self left)) behind

theorem eq_or_precedes_getLast
    (nonempty : items ≠ [])
    (member : left ∈ items) :
    left = items.getLast nonempty ∨ Precedes left (items.getLast nonempty) items := by
  have split := List.dropLast_append_getLast nonempty
  rw [← split] at member
  rcases List.mem_append.mp member with earlier | last
  · have order := precedes_append earlier (List.mem_singleton_self (items.getLast nonempty))
    rw [split] at order
    exact Or.inr order
  · exact Or.inl (List.mem_singleton.mp last)

/-- In a list without repetitions no two items stand in front of each other. -/
theorem Precedes.asymm
    (distinct : items.Nodup)
    (order : Precedes left right items) :
    ¬ Precedes right left items := by
  intro reverse
  obtain ⟨before, after, rfl, leftMember, rightMember⟩ := order.exists_append
  obtain ⟨front, back, split, rightInFront, leftInBack⟩ := reverse.exists_append
  have apart := (List.nodup_append.mp distinct).2.2
  rcases List.append_eq_append_iff.mp split with ⟨between, _, rfl⟩ | ⟨between, rfl, _⟩
  · exact apart left leftMember left (List.mem_append_right between leftInBack) rfl
  · exact apart right (List.mem_append_left between rightInFront) right rightMember rfl

theorem Precedes.mem_before
    {before after : List α}
    (distinct : items.Nodup)
    (order : Precedes left right items)
    (split : items = before ++ right :: after) :
    left ∈ before := by
  have member := order.left_mem
  rw [split] at member
  rcases List.mem_append.mp member with earlier | later
  · exact earlier
  · rcases List.mem_cons.mp later with rfl | behind
    · exact absurd order (order.asymm distinct)
    · have reverse : Precedes right left items := by
        rw [split, List.append_cons]
        exact precedes_append (List.mem_append_right before (List.mem_singleton_self right)) behind
      exact absurd reverse (order.asymm distinct)

/-- Images stand in the order of the items. -/
theorem precedes_map_iff
    {image : α → β} {more : List α}
    (injective : ∀ first ∈ more, ∀ second ∈ more, image first = image second → first = second)
    (contained : items ⊆ more)
    (leftMember : left ∈ more)
    (rightMember : right ∈ more) :
    Precedes (image left) (image right) (items.map image) ↔ Precedes left right items := by
  constructor
  · intro order
    obtain ⟨part, partSublist, shape⟩ := List.sublist_map_iff.mp order
    obtain ⟨first, rest, rfl, sameLeft, restShape⟩ := List.map_eq_cons_iff.mp shape.symm
    obtain ⟨second, last, rfl, sameRight, lastShape⟩ := List.map_eq_cons_iff.mp restShape
    rw [List.map_eq_nil_iff.mp lastShape] at partSublist
    have firstMember := contained (partSublist.subset List.mem_cons_self)
    have secondMember := contained
      (partSublist.subset (List.mem_cons_of_mem first List.mem_cons_self))
    rwa [injective first firstMember left leftMember sameLeft,
      injective second secondMember right rightMember sameRight] at partSublist
  · intro order
    exact order.map image

/-- Two items stand in the same order in two lists if one keeps every order of the other. -/
theorem precedes_iff_of_kept
    {other : List α}
    (distinct : items.Nodup)
    (leftMember : left ∈ other)
    (rightMember : right ∈ other)
    (kept : Precedes left right other → Precedes left right items)
    (keptReverse : Precedes right left other → Precedes right left items) :
    Precedes left right items ↔ Precedes left right other := by
  constructor
  · intro order
    have different : left ≠ right := by
      rintro rfl
      exact order.asymm distinct order
    rcases precedes_or_precedes leftMember rightMember different with same | reverse
    · exact same
    · exact absurd (keptReverse reverse) (order.asymm distinct)
  · exact kept

end Lists

end TypeGraph
