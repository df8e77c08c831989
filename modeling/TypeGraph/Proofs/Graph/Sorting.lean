import Mathlib.Data.List.Nodup
import TypeGraph.Graph.Order
import TypeGraph.Proofs.Graph.Walk

/-!
# Sorting places

The sorting keeps, for each place, the number of arcs into it whose beginning has not been left. A
place is in the queue or in the order exactly when that number is zero, and never twice. The order
therefore has the beginnings of all arcs into a place in front of the place, and it has the places
that are not behind a cycle.
-/

namespace TypeGraph

/-- The number of arcs into a place from places that are not among those left. -/
def unfollowed (arcs : List (Nat × Nat)) (left : List Nat) (place : Nat) : Nat :=
  arcs.countP fun arc => arc.2 == place && !left.contains arc.1

/-- Whether each place has the beginnings of the arcs into it in front of it. -/
def Sequenced (arcs : List (Nat × Nat)) (order : List Nat) : Prop :=
  ∀ before place after, order = before ++ place :: after →
    ∀ source, Leads arcs source place → source ∈ before

theorem unfollowed_nil (arcs : List (Nat × Nat)) (place : Nat) :
    unfollowed arcs [] place = arcsInto arcs place := by
  simp [unfollowed, arcsInto]

theorem unfollowed_eq_zero_iff {arcs : List (Nat × Nat)} {left : List Nat} {place : Nat} :
    unfollowed arcs left place = 0 ↔ ∀ source, Leads arcs source place → source ∈ left := by
  rw [unfollowed, List.countP_eq_zero]
  constructor
  · intro none source arc
    have followed := none (source, place) arc
    simpa using followed
  · rintro followed ⟨source, target⟩ arc matching
    simp only [Bool.and_eq_true, beq_iff_eq, Bool.not_eq_true', List.contains_eq_mem,
      decide_eq_false_iff_not] at matching
    obtain ⟨rfl, notLeft⟩ := matching
    exact notLeft (followed source arc)

/-- To leave a place is to follow the arcs from it. -/
theorem unfollowed_leave
    (arcs : List (Nat × Nat)) {left : List Nat} {current : Nat}
    (notLeft : current ∉ left)
    (place : Nat) :
    unfollowed arcs left place =
      unfollowed arcs (left ++ [current]) place + (successors arcs current).count place := by
  induction arcs with
  | nil =>
      rfl
  | cons arc rest inner =>
      simp only [unfollowed, successors, List.count, List.countP_map] at inner ⊢
      simp only [List.countP_cons, List.filter_cons]
      rw [inner]
      by_cases fromCurrent : arc.1 = current
      · by_cases intoPlace : arc.2 = place
        · simp [fromCurrent, intoPlace, notLeft]
          omega
        · simp [fromCurrent, intoPlace]
      · by_cases known : arc.1 ∈ left
        · simp [fromCurrent, known]
        · simp [fromCurrent, known]
          omega

theorem Sequenced.append
    {arcs : List (Nat × Nat)} {order : List Nat} {place : Nat}
    (sequenced : Sequenced arcs order)
    (followed : ∀ source, Leads arcs source place → source ∈ order) :
    Sequenced arcs (order ++ [place]) := by
  intro before current after split source arc
  rcases List.append_eq_append_iff.mp split with
    ⟨between, beforeShape, tail⟩ | ⟨between, orderShape, tail⟩
  · cases between with
    | nil =>
        simp only [List.nil_append, List.cons.injEq] at tail
        obtain ⟨rfl, _⟩ := tail
        rw [beforeShape, List.append_nil]
        exact followed source arc
    | cons head rest =>
        simp at tail
  · cases between with
    | nil =>
        simp only [List.nil_append, List.cons.injEq] at tail
        obtain ⟨rfl, _⟩ := tail
        rw [List.append_nil] at orderShape
        exact orderShape ▸ followed source arc
    | cons head rest =>
        simp only [List.cons_append, List.cons.injEq] at tail
        obtain ⟨rfl, _⟩ := tail
        exact sequenced before current rest orderShape source arc

/-- In front of a place stands everything that a walk leads to it from. -/
theorem Sequenced.mem_before
    {arcs : List (Nat × Nat)} {order : List Nat} {source place : Nat}
    (sequenced : Sequenced arcs order)
    (walk : Relation.TransGen (Leads arcs) source place)
    {before after : List Nat}
    (split : order = before ++ place :: after) :
    source ∈ before := by
  induction walk generalizing before after with
  | single arc =>
      exact sequenced before _ after split source arc
  | tail _ arc inner =>
      obtain ⟨front, back, rfl⟩ :=
        List.append_of_mem (sequenced before _ after split _ arc)
      rw [List.append_assoc, List.cons_append] at split
      exact List.mem_append_left _ (inner split)

/-- No place of an order without repetitions is behind a cycle. -/
theorem Sequenced.not_behindCycle
    {arcs : List (Nat × Nat)} {order : List Nat} {place : Nat}
    (sequenced : Sequenced arcs order)
    (distinct : order.Nodup)
    (listed : place ∈ order) :
    ¬ BehindCycle arcs place := by
  rintro ⟨origin, cycle, walk⟩
  have originListed : origin ∈ order := by
    obtain ⟨before, after, split⟩ := List.append_of_mem listed
    rcases Relation.reflTransGen_iff_eq_or_transGen.mp walk with rfl | onward
    · exact listed
    · rw [split]
      exact List.mem_append_left _ (sequenced.mem_before onward split)
  obtain ⟨before, after, split⟩ := List.append_of_mem originListed
  have again : origin ∈ before := sequenced.mem_before cycle split
  rw [split] at distinct
  exact (List.nodup_append.mp distinct).2.2 origin again origin List.mem_cons_self rfl

namespace Sorting

@[simp]
theorem order_arrive (sorting : Sorting) (place : Nat) :
    (sorting.arrive place).order = sorting.order :=
  rfl

@[simp]
theorem order_foldl_arrive (sorting : Sorting) (places : List Nat) :
    (places.foldl arrive sorting).order = sorting.order := by
  induction places generalizing sorting with
  | nil =>
      rfl
  | cons place rest inner =>
      rw [List.foldl_cons, inner, order_arrive]

/-! ## The invariant -/

/-- What holds of a sorting of which the arcs to the pending places remain to be followed. -/
structure Sound (arcs : List (Nat × Nat)) (count : Nat) (pending : List Nat) (sorting : Sorting) :
    Prop where
  size : sorting.waiting.length = count
  counted : ∀ place < count,
    sorting.waiting.getD place 0 = unfollowed arcs sorting.order place + pending.count place
  distinct : (sorting.order ++ sorting.queue).Nodup
  ready : ∀ place,
    place ∈ sorting.order ++ sorting.queue ↔ place < count ∧ sorting.waiting.getD place 0 = 0
  sequenced : Sequenced arcs sorting.order

variable {arcs : List (Nat × Nat)} {count : Nat} {pending : List Nat} {sorting : Sorting}

theorem sound_start (arcs : List (Nat × Nat)) (count : Nat) : Sound arcs count [] (start arcs count)
    where
  size := by
    simp [start]
  counted := by
    intro place inside
    simp [start, inside, unfollowed_nil]
  distinct := by
    simpa [start] using List.nodup_range.filter _
  ready := by
    intro place
    by_cases inside : place < count
    · simp [start, inside]
    · simp [start, inside]
  sequenced := by
    intro before place after split
    simp [start] at split

/-- The number at one place changes, and at no other. -/
theorem waiting_arrive
    (size : sorting.waiting.length = count)
    {place : Nat}
    (inside : place < count)
    (other : Nat) :
    (sorting.arrive place).waiting.getD other 0 =
      if other = place then sorting.waiting.getD place 0 - 1 else sorting.waiting.getD other 0 := by
  by_cases same : other = place
  · subst same
    simp [arrive, List.getD_eq_getElem?_getD, size, inside]
  · have different : ¬ place = other := fun equality => same equality.symm
    simp [arrive, List.getD_eq_getElem?_getD, same, different]

/-- A place whose number is not zero yet can be arrived at. -/
theorem Sound.arrive
    {place : Nat}
    (sound : Sound arcs count (place :: pending) sorting)
    (inside : place < count) :
    Sound arcs count pending (sorting.arrive place) := by
  have number : sorting.waiting.getD place 0 =
      unfollowed arcs sorting.order place + (pending.count place + 1) := by
    rw [sound.counted place inside, List.count_cons_self]
  have notReady : place ∉ sorting.order ++ sorting.queue := by
    intro member
    have zero := ((sound.ready place).mp member).2
    omega
  have queueShape : (sorting.arrive place).queue =
      if sorting.waiting.getD place 0 - 1 = 0 then sorting.queue ++ [place] else sorting.queue := rfl
  constructor
  · simpa [Sorting.arrive] using sound.size
  · intro other otherInside
    rw [waiting_arrive sound.size inside, order_arrive]
    by_cases same : other = place
    · rw [if_pos same, same, number]
      omega
    · rw [if_neg same, sound.counted other otherInside,
        List.count_cons_of_ne (fun equality => same equality.symm)]
  · rw [queueShape, order_arrive]
    split
    · rw [← List.append_assoc]
      exact List.nodup_append.mpr ⟨sound.distinct, List.nodup_singleton place, by
        intro left leftMember right rightMember equality
        rw [List.mem_singleton] at rightMember
        exact notReady (rightMember ▸ equality ▸ leftMember)⟩
    · exact sound.distinct
  · intro other
    rw [waiting_arrive sound.size inside, order_arrive, queueShape]
    by_cases same : other = place
    · rw [if_pos same, same]
      split
      · next zero =>
        have appended : place ∈ sorting.order ++ (sorting.queue ++ [place]) := by simp
        exact iff_of_true appended ⟨inside, zero⟩
      · next notZero =>
        exact iff_of_false notReady fun both => notZero both.2
    · have unchanged := sound.ready other
      rw [if_neg same, ← unchanged]
      split
      · simp [same]
      · exact Iff.rfl
  · exact sound.sequenced

theorem Sound.foldl_arrive
    (sound : Sound arcs count pending sorting)
    (inside : ∀ place ∈ pending, place < count) :
    Sound arcs count [] (pending.foldl Sorting.arrive sorting) := by
  induction pending generalizing sorting with
  | nil =>
      exact sound
  | cons place rest inner =>
      refine inner (sound.arrive (inside place List.mem_cons_self)) ?_
      intro other member
      exact inside other (List.mem_cons_of_mem place member)

/-- All beginnings of arcs into a place that is ready have been left. -/
theorem Sound.followed
    (sound : Sound arcs count [] sorting)
    {place : Nat}
    (ready : place ∈ sorting.order ++ sorting.queue)
    {source : Nat}
    (arc : Leads arcs source place) :
    source ∈ sorting.order := by
  have ⟨inside, zero⟩ := (sound.ready place).mp ready
  rw [sound.counted place inside, List.count_nil, Nat.add_zero] at zero
  exact unfollowed_eq_zero_iff.mp zero source arc

theorem lt_of_mem_successors
    (bounded : ∀ source target, Leads arcs source target → target < count)
    {current place : Nat}
    (member : place ∈ successors arcs current) :
    place < count := by
  obtain ⟨⟨source, target⟩, arc, rfl⟩ := List.mem_map.mp member
  exact bounded source target (List.mem_filter.mp arc).1

/-- To leave the first place of the queue is to have the arcs from it to follow. -/
theorem Sound.leave
    (sound : Sound arcs count [] sorting)
    {place : Nat} {rest : List Nat}
    (queueShape : sorting.queue = place :: rest) :
    Sound arcs count (successors arcs place)
      { sorting with queue := rest, order := sorting.order ++ [place] } := by
  have reorder : (sorting.order ++ [place]) ++ rest = sorting.order ++ sorting.queue := by
    rw [queueShape, List.append_assoc, List.singleton_append]
  have inQueue : place ∈ sorting.order ++ sorting.queue := by
    rw [queueShape]
    exact List.mem_append_right _ List.mem_cons_self
  have notLeft : place ∉ sorting.order := by
    have distinct := sound.distinct
    rw [queueShape] at distinct
    intro member
    exact (List.nodup_append.mp distinct).2.2 place member place List.mem_cons_self rfl
  refine ⟨sound.size, ?_, ?_, ?_, ?_⟩
  · intro other inside
    have number := sound.counted other inside
    rw [List.count_nil, Nat.add_zero] at number
    rw [number]
    exact unfollowed_leave arcs notLeft other
  · exact reorder ▸ sound.distinct
  · intro other
    exact reorder ▸ sound.ready other
  · exact sound.sequenced.append fun source arc => sound.followed inQueue arc

/-- One step keeps the invariant: the first place of the queue is left, and the arcs from it are
followed. -/
theorem Sound.step
    (bounded : ∀ source target, Leads arcs source target → target < count)
    (sound : Sound arcs count [] sorting) :
    Sound arcs count [] (sorting.step arcs) := by
  unfold Sorting.step
  cases queueShape : sorting.queue with
  | nil =>
      exact sound
  | cons place rest =>
      exact (sound.leave queueShape).foldl_arrive fun _ member => lt_of_mem_successors bounded member

theorem sound_after
    (bounded : ∀ source target, Leads arcs source target → target < count)
    (steps : Nat) :
    Sound arcs count [] (after arcs count steps) := by
  induction steps with
  | zero =>
      exact sound_start arcs count
  | succ steps inner =>
      exact inner.step bounded

/-! ## The end of the sorting -/

/-- Each step leaves a place until the queue is empty. -/
theorem queue_eq_nil_or_length_order (arcs : List (Nat × Nat)) (count steps : Nat) :
    (after arcs count steps).queue = [] ∨ (after arcs count steps).order.length = steps := by
  induction steps with
  | zero =>
      exact Or.inr rfl
  | succ steps inner =>
      have unfolded : after arcs count (steps + 1) = (after arcs count steps).step arcs := rfl
      rw [unfolded]
      unfold Sorting.step
      cases queueShape : (after arcs count steps).queue with
      | nil =>
          exact Or.inl queueShape
      | cons place rest =>
          rcases inner with empty | length
          · rw [queueShape] at empty
            cases empty
          · right
            simp [length]

/-- As many steps as there are places empty the queue. -/
theorem queue_after
    (bounded : ∀ source target, Leads arcs source target → target < count) :
    (after arcs count count).queue = [] := by
  have sound := sound_after bounded count
  rcases queue_eq_nil_or_length_order arcs count count with empty | length
  · exact empty
  · have contained : (after arcs count count).order ++ (after arcs count count).queue ⊆
        List.range count := by
      intro place member
      exact List.mem_range.mpr ((sound.ready place).mp member).1
    have bound := sound.distinct.length_le_of_subset contained
    rw [List.length_append, length, List.length_range] at bound
    exact List.eq_nil_of_length_eq_zero (by omega)

/-- What is not behind a cycle does not wait for ever. -/
theorem mem_order_after
    (bounded : ∀ source target, Leads arcs source target → source < count ∧ target < count)
    {place : Nat}
    (inside : place < count)
    (free : ¬ BehindCycle arcs place) :
    place ∈ (after arcs count count).order := by
  have targetBounded : ∀ source target, Leads arcs source target → target < count :=
    fun source target arc => (bounded source target arc).2
  have sound := sound_after targetBounded count
  have empty := queue_after targetBounded
  -- The beginnings of the arcs into a place are in the order by induction back along the arcs.
  induction acc_of_not_behindCycle free with
  | intro place _ inner =>
    have followed : ∀ source, Leads arcs source place →
        source ∈ (after arcs count count).order :=
      fun source arc => inner source arc (bounded source place arc).1 fun behind =>
        free (behind.tail arc)
    have zero : (after arcs count count).waiting.getD place 0 = 0 := by
      rw [sound.counted place inside, List.count_nil, Nat.add_zero]
      exact unfollowed_eq_zero_iff.mpr followed
    have ready := (sound.ready place).mpr ⟨inside, zero⟩
    rw [empty, List.append_nil] at ready
    exact ready

end Sorting

end TypeGraph
