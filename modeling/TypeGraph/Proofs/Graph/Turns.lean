import Mathlib.Data.List.Dedup
import TypeGraph.Proofs.Graph.Cycles

/-!
# The turns of nodes

The queue of the sorting grows at its end only. It begins with the places that no arc leads to, and
each place that is left adds those that waited for nothing else, in the order of the last arcs to
them. This settles which of two listed nodes comes first. Nodes that stop waiting together come in
the order of the edges that free them, which need not be their own order.
-/

namespace TypeGraph

namespace Sorting

/-! ## What the queue takes up -/

/-- The places that wait for nothing any more once a place is left behind others, in the order of the
last arcs to them. -/
def freed (arcs : List (Nat × Nat)) (left : List Nat) (place : Nat) : List Nat :=
  (successors arcs place).dedup.filter fun target => unfollowed arcs (left ++ [place]) target == 0

/-- The places that are freed while places are left one after another. -/
def freedAlong (arcs : List (Nat × Nat)) (left : List Nat) : List Nat → List Nat
  | [] => []
  | place :: rest => freed arcs left place ++ freedAlong arcs (left ++ [place]) rest

variable {arcs : List (Nat × Nat)} {count : Nat} {pending : List Nat} {sorting : Sorting}

theorem freedAlong_append (arcs : List (Nat × Nat)) (left first second : List Nat) :
    freedAlong arcs left (first ++ second) =
      freedAlong arcs left first ++ freedAlong arcs (left ++ first) second := by
  induction first generalizing left with
  | nil =>
      rw [List.nil_append, List.append_nil]
      rfl
  | cons place rest inner =>
      rw [List.cons_append, freedAlong, freedAlong, inner, List.append_assoc, List.append_assoc,
        List.singleton_append]

/-- A place enters the queue when the last arc to it is followed, unless arcs from elsewhere lead to
it. -/
theorem Sound.queue_foldl_arrive
    (sound : Sound arcs count pending sorting)
    (inside : ∀ place ∈ pending, place < count) :
    (pending.foldl Sorting.arrive sorting).queue =
      sorting.queue ++
        pending.dedup.filter fun target => unfollowed arcs sorting.order target == 0 := by
  induction pending generalizing sorting with
  | nil =>
      exact (List.append_nil _).symm
  | cons place rest inner =>
      have placeInside := inside place List.mem_cons_self
      have number : sorting.waiting.getD place 0 - 1 =
          unfollowed arcs sorting.order place + rest.count place := by
        rw [sound.counted place placeInside, List.count_cons_self]
        omega
      have queueShape : (sorting.arrive place).queue =
          if unfollowed arcs sorting.order place + rest.count place = 0 then
            sorting.queue ++ [place]
          else sorting.queue := by
        rw [← number]
        rfl
      rw [List.foldl_cons, inner (sound.arrive placeInside) fun other member =>
        inside other (List.mem_cons_of_mem place member), order_arrive, queueShape]
      -- Arcs to the place that are still pending keep its number above zero.
      by_cases later : place ∈ rest
      · have again : 0 < rest.count place := List.count_pos_iff.mpr later
        rw [if_neg (by omega), List.dedup_cons_of_mem later]
      · rw [List.count_eq_zero.mpr later, Nat.add_zero, List.dedup_cons_of_notMem later,
          List.filter_cons]
        by_cases free : unfollowed arcs sorting.order place = 0
        · rw [if_pos free, if_pos (beq_iff_eq.mpr free), List.append_assoc, List.singleton_append]
        · rw [if_neg free, if_neg fun zero => free (beq_iff_eq.mp zero)]

/-- Whether the order and the queue hold what was ready from the beginning and, behind it, what was
freed along the order. -/
def Grown (arcs : List (Nat × Nat)) (count : Nat) (sorting : Sorting) : Prop :=
  sorting.order ++ sorting.queue =
    (start arcs count).queue ++ freedAlong arcs [] sorting.order

theorem Sound.grown_step
    (sound : Sound arcs count [] sorting)
    (bounded : ∀ source target, Leads arcs source target → target < count)
    (grown : Grown arcs count sorting) :
    Grown arcs count (sorting.step arcs) := by
  unfold Sorting.step
  cases queueShape : sorting.queue with
  | nil =>
      exact grown
  | cons place rest =>
      have left := sound.leave queueShape
      have queue := left.queue_foldl_arrive fun _ member => lt_of_mem_successors bounded member
      rw [Grown, queueShape] at grown
      rw [Grown, order_foldl_arrive, queue, freedAlong_append, ← List.append_assoc,
        ← List.append_assoc, ← grown]
      simp only [freedAlong, freed, List.nil_append, List.append_nil, List.append_assoc,
        List.singleton_append]

theorem grown_after
    (bounded : ∀ source target, Leads arcs source target → target < count)
    (steps : Nat) :
    Grown arcs count (after arcs count steps) := by
  induction steps with
  | zero =>
      exact (List.append_nil (start arcs count).queue).symm
  | succ steps inner =>
      exact (sound_after bounded steps).grown_step bounded inner

/-- What a place frees is among what is freed along an order that has the place. -/
theorem freed_sublist_freedAlong (arcs : List (Nat × Nat)) (left before after : List Nat)
    (place : Nat) :
    (freed arcs (left ++ before) place).Sublist
      (freedAlong arcs left (before ++ place :: after)) := by
  rw [freedAlong_append, freedAlong]
  exact (List.sublist_append_left _ _).trans (List.sublist_append_right _ _)

theorem mem_queue_start {place : Nat} :
    place ∈ (start arcs count).queue ↔ place < count ∧ ∀ source, ¬ Leads arcs source place := by
  rw [start, List.mem_filter, List.mem_range, beq_iff_eq, ← unfollowed_nil, unfollowed_eq_zero_iff]
  simp only [List.not_mem_nil]

end Sorting

/-! ## Turns -/

section Turns

variable {α : Type}

/-- Whether no arc leads to a point. -/
def Untouched (arcs : List (α × α)) (point : α) : Prop :=
  ∀ source, ¬ Leads arcs source point

/-- Whether a point is the last in an order of those that arcs lead to another point from. -/
structure LastInto (arcs : List (α × α)) (order : List α) (last point : α) : Prop where
  leads : Leads arcs last point
  behind : ∀ source, Leads arcs source point → source = last ∨ Precedes source last order

variable [DecidableEq α]

/-- The points that arcs lead to from a point, in the order of the last arcs to them. -/
def lastTargets (arcs : List (α × α)) (point : α) : List α :=
  ((arcs.filter fun arc => arc.1 == point).map Prod.snd).dedup

/-- Whether an order has points in the turn in which they stop waiting. Any two points of the order
stand as one of the last four fields says. -/
structure InTurn (points : List α) (arcs : List (α × α)) (order : List α) : Prop where
  /-- A point that an arc leads to waits for some point last. -/
  waiting : ∀ point ∈ order, ¬ Untouched arcs point → ∃ last ∈ order, LastInto arcs order last point
  /-- Points that no arc leads to keep their own order. -/
  untouched : ∀ left ∈ order, ∀ right ∈ order, Untouched arcs left → Untouched arcs right →
    (Precedes left right order ↔ Precedes left right points)
  /-- They come in front of all others. -/
  first : ∀ left ∈ order, ∀ right ∈ order, Untouched arcs left → ¬ Untouched arcs right →
    Precedes left right order
  /-- Points that wait for different points last come in the order of these. -/
  queued : ∀ left ∈ order, ∀ right ∈ order, ∀ leftLast rightLast,
    LastInto arcs order leftLast left → LastInto arcs order rightLast right →
      Precedes leftLast rightLast order → Precedes left right order
  /-- Points that wait for the same point last come in the order of the last arcs from it. -/
  together : ∀ left ∈ order, ∀ right ∈ order, ∀ last,
    LastInto arcs order last left → LastInto arcs order last right →
      (Precedes left right order ↔ Precedes left right (lastTargets arcs last))

/-- Whether points that stop waiting together, at the beginning or because of one last point, keep
their own order. -/
def KeepsTies (points : List α) (arcs : List (α × α)) (order : List α) : Prop :=
  ∀ left ∈ order, ∀ right ∈ order, Precedes left right points →
    ((Untouched arcs left ∧ Untouched arcs right) ∨
      ∃ last, LastInto arcs order last left ∧ LastInto arcs order last right) →
        Precedes left right order

/-- Whether the last arcs to points that stop waiting because of one last point have the order of the
points. -/
def ArcsKeepTies (points : List α) (arcs : List (α × α)) (order : List α) : Prop :=
  ∀ left ∈ order, ∀ right ∈ order, Precedes left right points →
    ∀ last, LastInto arcs order last left → LastInto arcs order last right →
      Precedes left right (lastTargets arcs last)

variable {points order : List α} {arcs : List (α × α)}

theorem LastInto.mem_lastTargets
    {last point : α}
    (waits : LastInto arcs order last point) :
    point ∈ lastTargets arcs last := by
  refine List.mem_dedup.mpr (List.mem_map.mpr ⟨(last, point), ?_, rfl⟩)
  exact List.mem_filter.mpr ⟨waits.leads, beq_self_eq_true last⟩

/-- Of the points of an order that arcs lead to a point from, one is the last. -/
theorem exists_lastInto
    {point : α}
    (touched : ¬ Untouched arcs point)
    (listed : ∀ source, Leads arcs source point → source ∈ order) :
    ∃ last ∈ order, LastInto arcs order last point := by
  let sources := order.filter fun source => (source, point) ∈ arcs
  have known : ∀ source, Leads arcs source point → source ∈ sources := fun source arc =>
    List.mem_filter.mpr ⟨listed source arc, decide_eq_true arc⟩
  obtain ⟨first, firstArc⟩ := not_forall_not.mp touched
  have nonempty : sources ≠ [] := List.ne_nil_of_mem (known first firstArc)
  have ⟨lastListed, lastSource⟩ := List.mem_filter.mp (List.getLast_mem nonempty)
  have lastArc : (sources.getLast nonempty, point) ∈ arcs := of_decide_eq_true lastSource
  refine ⟨sources.getLast nonempty, lastListed, lastArc, fun source arc => ?_⟩
  exact (eq_or_precedes_getLast nonempty (known source arc)).imp_right fun earlier =>
    earlier.of_sublist List.filter_sublist

theorem InTurn.keepsTies_iff (inTurn : InTurn points arcs order) :
    KeepsTies points arcs order ↔ ArcsKeepTies points arcs order := by
  constructor
  · intro keeps left leftListed right rightListed given last leftWaits rightWaits
    exact (inTurn.together left leftListed right rightListed last leftWaits rightWaits).mp
      (keeps left leftListed right rightListed given (Or.inr ⟨last, leftWaits, rightWaits⟩))
  · intro targets left leftListed right rightListed given tie
    rcases tie with ⟨leftUntouched, rightUntouched⟩ | ⟨last, leftWaits, rightWaits⟩
    · exact (inTurn.untouched left leftListed right rightListed leftUntouched
        rightUntouched).mpr given
    · exact (inTurn.together left leftListed right rightListed last leftWaits rightWaits).mpr
        (targets left leftListed right rightListed given last leftWaits rightWaits)

end Turns

/-! ## Turns under other names -/

section Images

variable {α β : Type} {image : α → β} {points order : List α} {arcs : List (α × α)}

/-- Whether names tell points apart that have the ends of all arcs among them. -/
structure Relabels (image : α → β) (points : List α) (arcs : List (α × α)) : Prop where
  injective : ∀ first ∈ points, ∀ second ∈ points, image first = image second → first = second
  source_mem : ∀ source target, Leads arcs source target → source ∈ points
  target_mem : ∀ source target, Leads arcs source target → target ∈ points

theorem leads_map
    {source target : α}
    (arc : Leads arcs source target) :
    Leads (arcs.map (Prod.map image image)) (image source) (image target) :=
  List.mem_map_of_mem (f := Prod.map image image) arc

/-- An arc to the image of a point is the image of an arc to the point. -/
theorem Relabels.exists_leads
    (relabels : Relabels image points arcs)
    {source : β} {point : α}
    (member : point ∈ points)
    (arc : Leads (arcs.map (Prod.map image image)) source (image point)) :
    ∃ origin ∈ points, image origin = source ∧ Leads arcs origin point := by
  obtain ⟨⟨first, second⟩, known, same⟩ := List.mem_map.mp arc
  obtain ⟨sameSource, sameTarget⟩ := Prod.mk.inj same
  have secondMember := relabels.target_mem first second known
  have here : second = point := relabels.injective second secondMember point member sameTarget
  rw [here] at known
  exact ⟨first, relabels.source_mem first point known, sameSource, known⟩

theorem untouched_map_iff
    (relabels : Relabels image points arcs)
    {point : α}
    (member : point ∈ points) :
    Untouched (arcs.map (Prod.map image image)) (image point) ↔ Untouched arcs point := by
  constructor
  · exact fun untouched source arc => untouched (image source) (leads_map arc)
  · intro untouched source arc
    obtain ⟨origin, _, _, known⟩ := relabels.exists_leads member arc
    exact untouched origin known

/-- The last point of an image is the image of the last point. -/
theorem LastInto.exists_of_map
    (relabels : Relabels image points arcs)
    (contained : order ⊆ points)
    {last : β} {point : α}
    (member : point ∈ points)
    (waits : LastInto (arcs.map (Prod.map image image)) (order.map image) last (image point)) :
    ∃ origin ∈ points, image origin = last ∧ LastInto arcs order origin point := by
  obtain ⟨origin, originMember, rfl, arc⟩ := relabels.exists_leads member waits.leads
  refine ⟨origin, originMember, rfl, arc, fun source sourceArc => ?_⟩
  have sourceMember := relabels.source_mem source point sourceArc
  rcases waits.behind (image source) (leads_map sourceArc) with equal | earlier
  · exact Or.inl (relabels.injective source sourceMember origin originMember equal)
  · rw [precedes_map_iff relabels.injective contained sourceMember originMember] at earlier
    exact Or.inr earlier

theorem LastInto.map
    (relabels : Relabels image points arcs)
    {last point : α}
    (member : point ∈ points)
    (waits : LastInto arcs order last point) :
    LastInto (arcs.map (Prod.map image image)) (order.map image) (image last) (image point) := by
  refine ⟨leads_map waits.leads, fun _ arc => ?_⟩
  obtain ⟨source, _, rfl, known⟩ := relabels.exists_leads member arc
  exact (waits.behind source known).imp (congrArg image) fun earlier => earlier.map image

variable [DecidableEq α]

theorem lastTargets_subset
    (relabels : Relabels image points arcs)
    (point : α) :
    lastTargets arcs point ⊆ points := by
  intro target member
  obtain ⟨arc, arcMember, rfl⟩ := List.mem_map.mp (List.mem_dedup.mp member)
  exact relabels.target_mem arc.1 arc.2 (List.mem_filter.mp arcMember).1

variable [DecidableEq β]

/-- The last occurrences of images are the images of last occurrences. -/
theorem dedup_map_of_injOn
    {items : List α}
    (injective : ∀ first ∈ items, ∀ second ∈ items, image first = image second → first = second) :
    (items.map image).dedup = items.dedup.map image := by
  induction items with
  | nil =>
      rfl
  | cons item rest inner =>
      have restInjective := inner fun first firstMember second secondMember =>
        injective first (List.mem_cons_of_mem item firstMember) second
          (List.mem_cons_of_mem item secondMember)
      by_cases later : item ∈ rest
      · rw [List.map_cons, List.dedup_cons_of_mem (List.mem_map_of_mem later),
          List.dedup_cons_of_mem later, restInjective]
      · have imageNew : image item ∉ rest.map image := by
          intro member
          obtain ⟨other, otherMember, same⟩ := List.mem_map.mp member
          have equal := injective other (List.mem_cons_of_mem item otherMember) item
            List.mem_cons_self same
          exact later (equal ▸ otherMember)
        rw [List.map_cons, List.dedup_cons_of_notMem imageNew, List.dedup_cons_of_notMem later,
          List.map_cons, restInjective]

theorem lastTargets_map
    (relabels : Relabels image points arcs)
    {point : α}
    (member : point ∈ points) :
    lastTargets (arcs.map (Prod.map image image)) (image point) =
      (lastTargets arcs point).map image := by
  have sameArcs : (arcs.map (Prod.map image image)).filter (fun arc => arc.1 == image point) =
      (arcs.filter fun arc => arc.1 == point).map (Prod.map image image) := by
    rw [List.filter_map]
    congr 1
    apply List.filter_congr
    intro arc arcMember
    have sourceMember := relabels.source_mem arc.1 arc.2 arcMember
    rw [Bool.eq_iff_iff, Function.comp_apply, beq_iff_eq, beq_iff_eq]
    exact ⟨relabels.injective arc.1 sourceMember point member, congrArg image⟩
  rw [lastTargets, sameArcs, List.map_map, lastTargets, ← dedup_map_of_injOn, List.map_map]
  · rfl
  · intro first firstMember second secondMember same
    have inside := lastTargets_subset relabels point
    exact relabels.injective first (inside (List.mem_dedup.mpr firstMember)) second
      (inside (List.mem_dedup.mpr secondMember)) same

/-- Points under other names are in turn if the points are. -/
theorem InTurn.map
    (inTurn : InTurn points arcs order)
    (relabels : Relabels image points arcs)
    (contained : order ⊆ points) :
    InTurn (points.map image) (arcs.map (Prod.map image image)) (order.map image) := by
  have origin : ∀ {name}, name ∈ order.map image →
      ∃ point, point ∈ order ∧ point ∈ points ∧ image point = name := by
    intro name listed
    obtain ⟨point, member, rfl⟩ := List.mem_map.mp listed
    exact ⟨point, member, contained member, rfl⟩
  constructor
  · intro _ listed touched
    obtain ⟨point, ordered, member, rfl⟩ := origin listed
    rw [untouched_map_iff relabels member] at touched
    obtain ⟨last, lastListed, waits⟩ := inTurn.waiting point ordered touched
    exact ⟨image last, List.mem_map_of_mem lastListed, waits.map relabels member⟩
  · intro _ leftListed _ rightListed leftUntouched rightUntouched
    obtain ⟨left, leftOrdered, leftMember, rfl⟩ := origin leftListed
    obtain ⟨right, rightOrdered, rightMember, rfl⟩ := origin rightListed
    rw [untouched_map_iff relabels leftMember] at leftUntouched
    rw [untouched_map_iff relabels rightMember] at rightUntouched
    rw [precedes_map_iff relabels.injective contained leftMember rightMember,
      precedes_map_iff relabels.injective (List.Subset.refl points) leftMember rightMember]
    exact inTurn.untouched left leftOrdered right rightOrdered leftUntouched rightUntouched
  · intro _ leftListed _ rightListed leftUntouched rightTouched
    obtain ⟨left, leftOrdered, leftMember, rfl⟩ := origin leftListed
    obtain ⟨right, rightOrdered, rightMember, rfl⟩ := origin rightListed
    rw [untouched_map_iff relabels leftMember] at leftUntouched
    rw [untouched_map_iff relabels rightMember] at rightTouched
    exact (inTurn.first left leftOrdered right rightOrdered leftUntouched rightTouched).map image
  · intro _ leftListed _ rightListed _ _ leftWaits rightWaits lasts
    obtain ⟨left, leftOrdered, leftMember, rfl⟩ := origin leftListed
    obtain ⟨right, rightOrdered, rightMember, rfl⟩ := origin rightListed
    obtain ⟨leftLast, leftLastMember, rfl, leftOrigin⟩ :=
      leftWaits.exists_of_map relabels contained leftMember
    obtain ⟨rightLast, rightLastMember, rfl, rightOrigin⟩ :=
      rightWaits.exists_of_map relabels contained rightMember
    rw [precedes_map_iff relabels.injective contained leftLastMember rightLastMember] at lasts
    exact (inTurn.queued left leftOrdered right rightOrdered leftLast rightLast leftOrigin
      rightOrigin lasts).map image
  · intro _ leftListed _ rightListed _ leftWaits rightWaits
    obtain ⟨left, leftOrdered, leftMember, rfl⟩ := origin leftListed
    obtain ⟨right, rightOrdered, rightMember, rfl⟩ := origin rightListed
    obtain ⟨last, lastMember, rfl, leftOrigin⟩ :=
      leftWaits.exists_of_map relabels contained leftMember
    obtain ⟨again, againMember, same, rightOrigin⟩ :=
      rightWaits.exists_of_map relabels contained rightMember
    obtain rfl := relabels.injective again againMember last lastMember same
    rw [lastTargets_map relabels lastMember,
      precedes_map_iff relabels.injective contained leftMember rightMember,
      precedes_map_iff relabels.injective (lastTargets_subset relabels again) leftMember rightMember]
    exact inTurn.together left leftOrdered right rightOrdered again leftOrigin rightOrigin

end Images

/-! ## The turns of places -/

section Places

variable {nodes : List Node} {edges : List Edge}

theorem placeOrder_eq (nodes : List Node) (edges : List Edge) :
    placeOrder nodes edges =
      (Sorting.start (arcs nodes edges) nodes.length).queue ++
        Sorting.freedAlong (arcs nodes edges) [] (placeOrder nodes edges) := by
  have grown : Sorting.Grown (arcs nodes edges) nodes.length
      (Sorting.after (arcs nodes edges) nodes.length nodes.length) :=
    Sorting.grown_after (fun _ _ arc => (lt_length_of_mem_arcs arc).2) nodes.length
  rwa [Sorting.Grown, queue_placeOrder, List.append_nil] at grown

/-- A place that waits for another last is freed by it. -/
theorem mem_freed_of_lastInto
    {before after : List Nat} {place target : Nat}
    (split : placeOrder nodes edges = before ++ place :: after)
    (last : LastInto (arcs nodes edges) (placeOrder nodes edges) place target) :
    target ∈ Sorting.freed (arcs nodes edges) before place := by
  have follows : target ∈ successors (arcs nodes edges) place :=
    List.mem_map.mpr ⟨(place, target), List.mem_filter.mpr ⟨last.leads, beq_self_eq_true place⟩, rfl⟩
  have free : unfollowed (arcs nodes edges) (before ++ [place]) target = 0 := by
    refine unfollowed_eq_zero_iff.mpr fun source arc => ?_
    rcases last.behind source arc with rfl | earlier
    · exact List.mem_append_right before (List.mem_singleton_self source)
    · exact List.mem_append_left _ (earlier.mem_before (placeOrder_nodup nodes edges) split)
  exact List.mem_filter.mpr ⟨List.mem_dedup.mpr follows, beq_iff_eq.mpr free⟩

theorem mem_placeOrder_of_leads
    {place target : Nat}
    (arc : Leads (arcs nodes edges) place target)
    (listed : target ∈ placeOrder nodes edges) :
    place ∈ placeOrder nodes edges := by
  obtain ⟨before, after, split⟩ := List.append_of_mem listed
  rw [split]
  exact List.mem_append_left _
    ((sound_placeOrder nodes edges).sequenced before target after split place arc)

theorem precedes_placeOrder_of_untouched
    {left right : Nat}
    (leftUntouched : Untouched (arcs nodes edges) left)
    (rightUntouched : Untouched (arcs nodes edges) right)
    (order : Precedes left right (List.range nodes.length)) :
    Precedes left right (placeOrder nodes edges) := by
  have ready : ∀ place ∈ List.range nodes.length, Untouched (arcs nodes edges) place →
      arcsInto (arcs nodes edges) place == 0 := by
    intro place member free
    exact (List.mem_filter.mp
      (Sorting.mem_queue_start.mpr ⟨List.mem_range.mp member, free⟩)).2
  rw [placeOrder_eq]
  refine Precedes.of_sublist ?_ (List.sublist_append_left _ _)
  exact order.filter (ready left order.left_mem leftUntouched)
    (ready right order.right_mem rightUntouched)

theorem precedes_placeOrder_of_touched
    {left right : Nat}
    (leftInside : left < nodes.length)
    (leftUntouched : Untouched (arcs nodes edges) left)
    (rightTouched : ¬ Untouched (arcs nodes edges) right)
    (rightListed : right ∈ placeOrder nodes edges) :
    Precedes left right (placeOrder nodes edges) := by
  rw [placeOrder_eq] at rightListed ⊢
  refine precedes_append (Sorting.mem_queue_start.mpr ⟨leftInside, leftUntouched⟩) ?_
  refine (List.mem_append.mp rightListed).resolve_left fun ready => ?_
  exact rightTouched (Sorting.mem_queue_start.mp ready).2

theorem precedes_placeOrder_of_queued
    {left right leftLast rightLast : Nat}
    (leftWaits : LastInto (arcs nodes edges) (placeOrder nodes edges) leftLast left)
    (rightWaits : LastInto (arcs nodes edges) (placeOrder nodes edges) rightLast right)
    (order : Precedes leftLast rightLast (placeOrder nodes edges)) :
    Precedes left right (placeOrder nodes edges) := by
  obtain ⟨front, back, split, leftMember, rightMember⟩ := order.exists_append
  obtain ⟨leftBefore, leftAfter, rfl⟩ := List.append_of_mem leftMember
  obtain ⟨rightBefore, rightAfter, rfl⟩ := List.append_of_mem rightMember
  -- One is freed along the front of the order, the other along its back.
  have leftFreed := mem_freed_of_lastInto
    (split.trans (List.append_assoc _ _ _)) leftWaits
  have rightFreed := mem_freed_of_lastInto
    (split.trans (List.append_assoc _ _ _).symm) rightWaits
  rw [placeOrder_eq, split, Sorting.freedAlong_append]
  refine Precedes.of_sublist ?_ (List.sublist_append_right _ _)
  refine precedes_append ?_ ?_
  · exact (Sorting.freed_sublist_freedAlong _ [] leftBefore leftAfter leftLast).subset leftFreed
  · exact (Sorting.freed_sublist_freedAlong _ _ rightBefore rightAfter rightLast).subset rightFreed

theorem precedes_placeOrder_of_together
    {left right last : Nat}
    (listed : last ∈ placeOrder nodes edges)
    (leftWaits : LastInto (arcs nodes edges) (placeOrder nodes edges) last left)
    (rightWaits : LastInto (arcs nodes edges) (placeOrder nodes edges) last right)
    (order : Precedes left right (lastTargets (arcs nodes edges) last)) :
    Precedes left right (placeOrder nodes edges) := by
  obtain ⟨before, after, split⟩ := List.append_of_mem listed
  have leftFreed := mem_freed_of_lastInto split leftWaits
  have rightFreed := mem_freed_of_lastInto split rightWaits
  have freedOrder : Precedes left right (Sorting.freed (arcs nodes edges) before last) :=
    order.filter (List.mem_filter.mp leftFreed).2 (List.mem_filter.mp rightFreed).2
  rw [placeOrder_eq, split]
  refine (freedOrder.of_sublist ?_).of_sublist (List.sublist_append_right _ _)
  exact Sorting.freed_sublist_freedAlong _ [] before after last

theorem inTurn_placeOrder (nodes : List Node) (edges : List Edge) :
    InTurn (List.range nodes.length) (arcs nodes edges) (placeOrder nodes edges) where
  waiting := by
    intro place listed touched
    exact exists_lastInto touched fun source arc => mem_placeOrder_of_leads arc listed
  untouched := by
    intro left leftListed right rightListed leftUntouched rightUntouched
    exact precedes_iff_of_kept (placeOrder_nodup nodes edges)
      (List.mem_range.mpr (lt_length_of_mem_placeOrder leftListed))
      (List.mem_range.mpr (lt_length_of_mem_placeOrder rightListed))
      (precedes_placeOrder_of_untouched leftUntouched rightUntouched)
      (precedes_placeOrder_of_untouched rightUntouched leftUntouched)
  first := by
    intro left leftListed right rightListed leftUntouched rightTouched
    exact precedes_placeOrder_of_touched (lt_length_of_mem_placeOrder leftListed) leftUntouched
      rightTouched rightListed
  queued := by
    intro left _ right _ leftLast rightLast leftWaits rightWaits lasts
    exact precedes_placeOrder_of_queued leftWaits rightWaits lasts
  together := by
    intro left leftListed right _ last leftWaits rightWaits
    have listed := mem_placeOrder_of_leads leftWaits.leads leftListed
    exact precedes_iff_of_kept (placeOrder_nodup nodes edges) leftWaits.mem_lastTargets
      rightWaits.mem_lastTargets (precedes_placeOrder_of_together listed leftWaits rightWaits)
      (precedes_placeOrder_of_together listed rightWaits leftWaits)

end Places

/-! ## The turns of nodes -/

section Nodes

variable {nodes : List Node} {edges : List Edge}

theorem idAt_of_getElem? {place : Nat} {node : Node} (stands : nodes[place]? = some node) :
    idAt nodes place = node.id := by
  rw [idAt, stands]
  rfl

theorem map_idAt_range (nodes : List Node) :
    (List.range nodes.length).map (idAt nodes) = nodes.map Node.id := by
  conv_rhs => rw [← filterMap_getElem?_range nodes]
  rw [List.map_filterMap, ← List.filterMap_eq_map]
  apply List.filterMap_congr
  intro place member
  have stands := List.getElem?_eq_getElem (List.mem_range.mp member)
  rw [Function.comp_apply, idAt_of_getElem? stands, stands]
  rfl

theorem map_idAt_placeOrder (nodes : List Node) (edges : List Edge) :
    (placeOrder nodes edges).map (idAt nodes) = (topologicalOrder nodes edges).map Node.id := by
  rw [topologicalOrder_eq, List.map_filterMap, ← List.filterMap_eq_map]
  apply List.filterMap_congr
  intro place member
  have stands := List.getElem?_eq_getElem (lt_length_of_mem_placeOrder member)
  rw [Function.comp_apply, idAt_of_getElem? stands, stands]
  rfl

/-- The ids of the nodes in topological order. -/
def listedIds (nodes : List Node) (edges : List Edge) : List String :=
  (topologicalOrder nodes edges).map Node.id

/-- Ids that are pairwise distinct tell places apart. -/
theorem relabels_idAt
    (distinct : (nodes.map Node.id).Nodup)
    (edges : List Edge) :
    Relabels (idAt nodes) (List.range nodes.length) (arcs nodes edges) where
  injective := by
    rw [← map_idAt_range] at distinct
    intro first firstMember second secondMember same
    exact List.inj_on_of_nodup_map distinct firstMember secondMember same
  source_mem := fun _ _ arc => List.mem_range.mpr (lt_length_of_mem_arcs arc).1
  target_mem := fun _ _ arc => List.mem_range.mpr (lt_length_of_mem_arcs arc).2

theorem inTurn_listedIds
    (distinct : (nodes.map Node.id).Nodup)
    (edges : List Edge) :
    InTurn (nodes.map Node.id) (links nodes edges) (listedIds nodes edges) := by
  rw [listedIds, ← map_idAt_range, ← map_idAt_arcs, ← map_idAt_placeOrder]
  refine (inTurn_placeOrder nodes edges).map (relabels_idAt distinct edges) ?_
  intro place member
  exact List.mem_range.mpr (lt_length_of_mem_placeOrder member)

/-- Where ids are pairwise distinct, nodes are listed in the turn in which they stop waiting. Those
that stop waiting together keep the order of the nodes exactly where the last edges to them have
it. -/
theorem topologicalOrder_inTurn
    {nodes : List Node}
    (distinct : (nodes.map Node.id).Nodup)
    (edges : List Edge) :
    InTurn (nodes.map Node.id) (links nodes edges) (listedIds nodes edges) ∧
      (KeepsTies (nodes.map Node.id) (links nodes edges) (listedIds nodes edges) ↔
        ArcsKeepTies (nodes.map Node.id) (links nodes edges) (listedIds nodes edges)) := by
  have inTurn := inTurn_listedIds distinct edges
  exact ⟨inTurn, inTurn.keepsTies_iff⟩

/-- Two nodes that one node frees, by edges that stand against their order. -/
def overtaking : Graph where
  nodes := [.ofOperation "a" "X", .ofOperation "b" "X", .ofOperation "c" "X"]
  edges := [.between "e1" "a" "c", .between "e2" "a" "b"]

theorem topologicalOrder_inTurn_overtaking :
    (overtaking.nodes.map Node.id).Nodup ∧
      InTurn (overtaking.nodes.map Node.id) (links overtaking.nodes overtaking.edges)
        (listedIds overtaking.nodes overtaking.edges) ∧
      (KeepsTies (overtaking.nodes.map Node.id) (links overtaking.nodes overtaking.edges)
          (listedIds overtaking.nodes overtaking.edges) ↔
        ArcsKeepTies (overtaking.nodes.map Node.id) (links overtaking.nodes overtaking.edges)
          (listedIds overtaking.nodes overtaking.edges)) := by
  have distinct : (overtaking.nodes.map Node.id).Nodup := by decide
  exact ⟨distinct, topologicalOrder_inTurn distinct overtaking.edges⟩

/-- The node that is freed by the earlier edge overtakes the earlier node. -/
theorem ties_not_kept :
    ¬ ∀ (nodes : List Node) (edges : List Edge), (nodes.map Node.id).Nodup →
      KeepsTies (nodes.map Node.id) (links nodes edges) (listedIds nodes edges) := by
  intro keeps
  have listed : listedIds overtaking.nodes overtaking.edges = ["a", "c", "b"] := by decide
  have joined : links overtaking.nodes overtaking.edges = [("a", "c"), ("a", "b")] := by decide
  have kept := keeps overtaking.nodes overtaking.edges (by decide)
  rw [listed, joined] at kept
  have waits : ∀ target ∈ ["b", "c"],
      LastInto [("a", "c"), ("a", "b")] ["a", "c", "b"] "a" target := by
    intro target member
    refine ⟨?_, fun source arc => Or.inl ?_⟩
    · simpa [Leads, or_comm] using member
    · rcases List.mem_cons.mp arc with same | later
      · exact (Prod.mk.inj same).1
      · exact (Prod.mk.inj (List.mem_singleton.mp later)).1
  have order := kept "b" (by decide) "c" (by decide) (by decide)
    (Or.inr ⟨"a", waits "b" (by decide), waits "c" (by decide)⟩)
  exact absurd order (by decide)

end Nodes

end TypeGraph
