import Mathlib.Data.List.Nodup
import TypeGraph.Proofs.Graph.Sorting

/-!
# Sorting a part of the places

Where no arc leads into a part of the places or out of it, the part is sorted within the whole as it
is sorted alone. What the queue of the whole holds of the part is the queue of the part: a step at a
place of the part is a step of both sortings, and a step elsewhere leaves the part as it is.
-/

namespace TypeGraph

/-- Places of a whole that are those of a part, which counts them by itself, and the arcs of
both. -/
structure Inset (inside : Nat → Bool) (place : Nat → Nat) (count size : Nat)
    (arcs partArcs : List (Nat × Nat)) : Prop where
  places : (List.range count).filter inside = (List.range size).map place
  arcs_eq : (arcs.filter fun arc => inside arc.1) = partArcs.map (Prod.map place place)
  closed : ∀ arc ∈ arcs, inside arc.1 = inside arc.2
  bounded : ∀ arc ∈ partArcs, arc.1 < size ∧ arc.2 < size

namespace Inset

variable {inside : Nat → Bool} {place : Nat → Nat} {count size : Nat}
  {arcs partArcs : List (Nat × Nat)}

theorem mem_filter_range
    (inset : Inset inside place count size arcs partArcs)
    {number : Nat}
    (small : number < size) :
    place number < count ∧ inside (place number) := by
  have listed : place number ∈ (List.range size).map place :=
    List.mem_map_of_mem (List.mem_range.mpr small)
  rw [← inset.places, List.mem_filter, List.mem_range] at listed
  exact listed

theorem injective
    (inset : Inset inside place count size arcs partArcs)
    {left right : Nat}
    (leftSmall : left < size)
    (rightSmall : right < size)
    (same : place left = place right) :
    left = right := by
  have distinct : ((List.range size).map place).Nodup := by
    rw [← inset.places]
    exact List.nodup_range.filter inside
  exact List.inj_on_of_nodup_map distinct (List.mem_range.mpr leftSmall)
    (List.mem_range.mpr rightSmall) same

theorem beq_place
    (inset : Inset inside place count size arcs partArcs)
    {left right : Nat}
    (leftSmall : left < size)
    (rightSmall : right < size) :
    (place left == place right) = (left == right) := by
  rw [Bool.eq_iff_iff, beq_iff_eq, beq_iff_eq]
  exact ⟨inset.injective leftSmall rightSmall, congrArg place⟩

theorem successors_place
    (inset : Inset inside place count size arcs partArcs)
    {number : Nat}
    (small : number < size) :
    successors arcs (place number) = (successors partArcs number).map place := by
  have fromPart : (arcs.filter fun arc => arc.1 == place number) =
      (arcs.filter fun arc => inside arc.1).filter fun arc => arc.1 == place number := by
    rw [List.filter_filter]
    apply List.filter_congr
    intro arc _
    by_cases here : arc.1 = place number
    · rw [here, (inset.mem_filter_range small).2, Bool.and_true]
    · rw [beq_eq_false_iff_ne.mpr here, Bool.false_and]
  have numbered : (partArcs.filter fun arc => place arc.1 == place number) =
      partArcs.filter fun arc => arc.1 == number := by
    apply List.filter_congr
    intro arc member
    exact inset.beq_place (inset.bounded arc member).1 small
  rw [successors, fromPart, inset.arcs_eq, List.filter_map, List.map_map, successors, List.map_map]
  exact congrArg _ numbered

theorem arcsInto_place
    (inset : Inset inside place count size arcs partArcs)
    {number : Nat}
    (small : number < size) :
    arcsInto arcs (place number) = arcsInto partArcs number := by
  have fromPart : arcsInto arcs (place number) =
      (arcs.filter fun arc => inside arc.1).countP fun arc => arc.2 == place number := by
    rw [arcsInto, List.countP_filter]
    apply List.countP_congr
    intro arc member
    rw [inset.closed arc member, Bool.and_eq_true, beq_iff_eq]
    constructor
    · intro here
      exact ⟨here, here ▸ (inset.mem_filter_range small).2⟩
    · exact And.left
  rw [fromPart, inset.arcs_eq, List.countP_map, arcsInto]
  apply List.countP_congr
  intro arc member
  rw [← inset.beq_place (inset.bounded arc member).2 small]
  rfl

theorem lt_of_mem_successors
    (inset : Inset inside place count size arcs partArcs)
    {number target : Nat}
    (follows : target ∈ successors partArcs number) :
    target < size := by
  obtain ⟨arc, member, rfl⟩ := List.mem_map.mp follows
  exact (inset.bounded arc (List.mem_filter.mp member).1).2

theorem outside_of_mem_successors
    (inset : Inset inside place count size arcs partArcs)
    {source target : Nat}
    (outside : inside source = false)
    (follows : target ∈ successors arcs source) :
    inside target = false := by
  obtain ⟨arc, member, rfl⟩ := List.mem_map.mp follows
  obtain ⟨known, here⟩ := List.mem_filter.mp member
  rw [← inset.closed arc known, beq_iff_eq.mp here]
  exact outside

end Inset

namespace Sorting

/-- Whether the sorting of a whole shows the sorting of a part. -/
structure Shows (inside : Nat → Bool) (place : Nat → Nat) (count size : Nat)
    (whole part : Sorting) : Prop where
  lengths : whole.waiting.length = count ∧ part.waiting.length = size
  waiting : ∀ number < size, whole.waiting.getD (place number) 0 = part.waiting.getD number 0
  queue : whole.queue.filter inside = part.queue.map place
  queued : ∀ number ∈ part.queue, number < size
  order : whole.order.filter inside = part.order.map place

variable {inside : Nat → Bool} {place : Nat → Nat} {count size : Nat}
  {arcs partArcs : List (Nat × Nat)} {whole part : Sorting}

theorem shows_start (inset : Inset inside place count size arcs partArcs) :
    Shows inside place count size (start arcs count) (start partArcs size) where
  lengths := by
    simp [start]
  waiting := by
    intro number small
    have bound := (inset.mem_filter_range small).1
    simp [start, small, bound, inset.arcsInto_place small]
  queue := by
    have ready : ((List.range size).map place).filter (fun number => arcsInto arcs number == 0) =
        ((List.range size).filter fun number => arcsInto partArcs number == 0).map place := by
      rw [List.filter_map]
      congr 1
      apply List.filter_congr
      intro number member
      rw [Function.comp_apply, inset.arcsInto_place (List.mem_range.mp member)]
    rw [start, start, ← ready, ← inset.places, List.filter_filter, List.filter_filter]
    exact List.filter_congr fun number _ => Bool.and_comm _ _
  queued := by
    intro number member
    exact List.mem_range.mp (List.mem_filter.mp member).1
  order := by
    rfl

theorem Shows.arrive_inside
    (shows : Shows inside place count size whole part)
    (inset : Inset inside place count size arcs partArcs)
    {number : Nat}
    (small : number < size) :
    Shows inside place count size (whole.arrive (place number)) (part.arrive number) := by
  obtain ⟨bound, here⟩ := inset.mem_filter_range small
  have same := shows.waiting number small
  constructor
  · simpa [arrive] using shows.lengths
  · intro other otherSmall
    rw [waiting_arrive shows.lengths.1 bound, waiting_arrive shows.lengths.2 small]
    by_cases equal : other = number
    · rw [if_pos (congrArg place equal), if_pos equal, same]
    · rw [if_neg fun equality => equal (inset.injective otherSmall small equality), if_neg equal]
      exact shows.waiting other otherSmall
  · simp only [arrive, same]
    split
    · rw [List.filter_append, List.map_append, shows.queue, List.filter_cons_of_pos here]
      rfl
    · exact shows.queue
  · intro other member
    simp only [arrive] at member
    split at member
    · rcases List.mem_append.mp member with earlier | last
      · exact shows.queued other earlier
      · rw [List.mem_singleton.mp last]
        exact small
    · exact shows.queued other member
  · exact shows.order

/-- An arc to a place elsewhere does not concern the part. -/
theorem Shows.arrive_outside
    (shows : Shows inside place count size whole part)
    (inset : Inset inside place count size arcs partArcs)
    {current : Nat}
    (outside : inside current = false) :
    Shows inside place count size (whole.arrive current) part := by
  constructor
  · simpa [arrive] using shows.lengths
  · intro number small
    have different : current ≠ place number := by
      rintro rfl
      rw [(inset.mem_filter_range small).2] at outside
      cases outside
    rw [← shows.waiting number small]
    simp [arrive, List.getD_eq_getElem?_getD, different]
  · simp only [arrive]
    split
    · rw [List.filter_append, shows.queue, List.filter_cons_of_neg (by simp [outside])]
      simp
    · exact shows.queue
  · exact shows.queued
  · exact shows.order

theorem Shows.foldl_arrive_inside
    (inset : Inset inside place count size arcs partArcs)
    {numbers : List Nat}
    (small : ∀ number ∈ numbers, number < size)
    (shows : Shows inside place count size whole part) :
    Shows inside place count size ((numbers.map place).foldl arrive whole)
      (numbers.foldl arrive part) := by
  induction numbers generalizing whole part with
  | nil =>
      exact shows
  | cons number rest inner =>
      have first := shows.arrive_inside inset (small number List.mem_cons_self)
      exact inner (fun other member => small other (List.mem_cons_of_mem _ member)) first

theorem Shows.foldl_arrive_outside
    (inset : Inset inside place count size arcs partArcs)
    {places : List Nat}
    (outside : ∀ current ∈ places, inside current = false)
    (shows : Shows inside place count size whole part) :
    Shows inside place count size (places.foldl arrive whole) part := by
  induction places generalizing whole with
  | nil =>
      exact shows
  | cons current rest inner =>
      have first := shows.arrive_outside inset (outside current List.mem_cons_self)
      exact inner (fun other member => outside other (List.mem_cons_of_mem _ member)) first

theorem Shows.step
    (inset : Inset inside place count size arcs partArcs)
    (shows : Shows inside place count size whole part) :
    Shows inside place count size (whole.step arcs) part ∨
      Shows inside place count size (whole.step arcs) (part.step partArcs) := by
  unfold Sorting.step
  cases wholeQueue : whole.queue with
  | nil =>
      exact Or.inl shows
  | cons current rest =>
      have queue := shows.queue
      rw [wholeQueue] at queue
      cases here : inside current with
      | false =>
          left
          rw [List.filter_cons_of_neg (by simp [here])] at queue
          refine Shows.foldl_arrive_outside inset
            (fun target follows => inset.outside_of_mem_successors here follows) ?_
          refine ⟨shows.lengths, shows.waiting, queue, shows.queued, ?_⟩
          rw [List.filter_append, shows.order, List.filter_cons_of_neg (by simp [here])]
          simp
      | true =>
          right
          rw [List.filter_cons_of_pos here] at queue
          obtain ⟨number, later, partQueue, rfl, restQueue⟩ :=
            List.map_eq_cons_iff.mp queue.symm
          have small : number < size :=
            shows.queued number (partQueue ▸ List.mem_cons_self)
          rw [partQueue]
          dsimp only
          rw [inset.successors_place small]
          refine Shows.foldl_arrive_inside inset
            (fun target follows => inset.lt_of_mem_successors follows) ?_
          refine ⟨shows.lengths, shows.waiting, restQueue.symm, ?_, ?_⟩
          · intro other member
            exact shows.queued other (partQueue ▸ List.mem_cons_of_mem _ member)
          · rw [List.filter_append, shows.order, List.filter_cons_of_pos here, List.map_append]
            rfl

theorem exists_shows_after (inset : Inset inside place count size arcs partArcs) (steps : Nat) :
    ∃ partSteps, Shows inside place count size (after arcs count steps)
      (after partArcs size partSteps) := by
  induction steps with
  | zero =>
      exact ⟨0, shows_start inset⟩
  | succ steps inner =>
      obtain ⟨partSteps, shows⟩ := inner
      rcases shows.step inset with still | moved
      · exact ⟨partSteps, still⟩
      · exact ⟨partSteps + 1, moved⟩

theorem after_add_of_queue_eq_nil
    {steps : Nat}
    (empty : (after arcs count steps).queue = [])
    (more : Nat) :
    after arcs count (steps + more) = after arcs count steps := by
  induction more with
  | zero =>
      rfl
  | succ more inner =>
      change (after arcs count (steps + more)).step arcs = _
      rw [inner, Sorting.step, empty]

theorem after_eq_of_queue_eq_nil
    {left right : Nat}
    (leftEmpty : (after arcs count left).queue = [])
    (rightEmpty : (after arcs count right).queue = []) :
    after arcs count left = after arcs count right := by
  rw [← after_add_of_queue_eq_nil leftEmpty right, Nat.add_comm,
    after_add_of_queue_eq_nil rightEmpty left]

/-- In the end, the order of the whole shows the order of the part. -/
theorem order_after_filter
    (inset : Inset inside place count size arcs partArcs)
    (bounded : ∀ source target, Leads arcs source target → target < count) :
    (after arcs count count).order.filter inside = (after partArcs size size).order.map place := by
  obtain ⟨partSteps, shows⟩ := exists_shows_after inset count
  have wholeEmpty := queue_after bounded
  have partEmpty : (after partArcs size partSteps).queue = [] := by
    have queue := shows.queue
    rw [wholeEmpty] at queue
    exact List.map_eq_nil_iff.mp queue.symm
  have finished : (after partArcs size size).queue = [] :=
    queue_after fun source target arc => (inset.bounded (source, target) arc).2
  rw [shows.order, after_eq_of_queue_eq_nil partEmpty finished]

end Sorting

end TypeGraph
