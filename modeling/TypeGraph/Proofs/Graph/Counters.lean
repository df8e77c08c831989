import TypeGraph.Proofs.Graph.Order

/-!
# The numbers of the sorting

The sorting takes one from the number of a place whenever it follows an arc to the place. It can do
so because the numbers are the lengths of lists of edges at any time: those from nodes that have not
been left and, in the midst of a step, those from the node just left that have not been followed.
-/

namespace TypeGraph

/-- The resolved edges that lead to the node at a place from nodes that have not been left. Each end
of an edge is at the first node with its id. -/
def openEdges (nodes : List Node) (edges : List Edge) (left : List Nat) (place : Nat) : List Edge :=
  (resolvedEdges nodes edges).filter fun edge =>
    positionOf? nodes edge.target == some place &&
      left.all fun source => positionOf? nodes edge.source != some source

/-- The arcs that have not been followed are those of open edges. -/
theorem length_openEdges (nodes : List Node) (edges : List Edge) (left : List Nat) (place : Nat) :
    (openEdges nodes edges left place).length = unfollowed (arcs nodes edges) left place := by
  rw [openEdges, unfollowed, arcs_eq_filterMap_resolvedEdges, List.countP_filterMap,
    ← List.countP_eq_length_filter]
  apply List.countP_congr
  intro edge member
  obtain ⟨_, sourcePresent, targetPresent⟩ := mem_resolvedEdges.mp member
  obtain ⟨source, sourceFound⟩ := exists_positionOf? sourcePresent
  obtain ⟨target, targetFound⟩ := exists_positionOf? targetPresent
  have joined : edge.arc? nodes = some (source, target) :=
    Edge.arc?_eq_some_iff.mpr ⟨sourceFound, targetFound⟩
  simp [joined, sourceFound, targetFound, List.forall_mem_ne]

namespace Sorting

/-- The state once the first place of the queue is left. -/
def leave (sorting : Sorting) (place : Nat) (rest : List Nat) : Sorting :=
  { sorting with queue := rest, order := sorting.order ++ [place] }

/-- Whether the sorting of nodes comes to a state in which arcs to some places are still to be
followed before it goes on with the queue. -/
inductive Reached (nodes : List Node) (edges : List Edge) : List Nat → Sorting → Prop where
  | start : Reached nodes edges [] (start (arcs nodes edges) nodes.length)
  | leave {sorting : Sorting} {place : Nat} {rest : List Nat} :
      Reached nodes edges [] sorting → sorting.queue = place :: rest →
      Reached nodes edges (successors (arcs nodes edges) place) (sorting.leave place rest)
  | follow {sorting : Sorting} {place : Nat} {pending : List Nat} :
      Reached nodes edges (place :: pending) sorting →
      Reached nodes edges pending (sorting.arrive place)

variable {nodes : List Node} {edges : List Edge} {pending : List Nat} {sorting : Sorting}

/-! ## Steps -/

theorem Reached.foldl_arrive
    {followed : List Nat} (reached : Reached nodes edges (followed ++ pending) sorting) :
    Reached nodes edges pending (followed.foldl Sorting.arrive sorting) := by
  induction followed generalizing sorting with
  | nil =>
      exact reached
  | cons place followed inner =>
      exact inner reached.follow

theorem step_of_queue
    {arcs : List (Nat × Nat)} {place : Nat} {rest : List Nat}
    (queueShape : sorting.queue = place :: rest) :
    sorting.step arcs = (successors arcs place).foldl arrive (sorting.leave place rest) := by
  rw [step, queueShape]
  rfl

theorem Reached.step (reached : Reached nodes edges [] sorting) :
    Reached nodes edges [] (sorting.step (arcs nodes edges)) := by
  cases queueShape : sorting.queue with
  | nil =>
      rw [Sorting.step, queueShape]
      exact reached
  | cons place rest =>
      have left := reached.leave queueShape
      rw [← List.append_nil (successors _ place)] at left
      rw [step_of_queue queueShape]
      exact left.foldl_arrive

theorem reached_after (nodes : List Node) (edges : List Edge) (steps : Nat) :
    Reached nodes edges [] (after (arcs nodes edges) nodes.length steps) := by
  induction steps with
  | zero =>
      exact .start
  | succ steps inner =>
      exact inner.step

/-- A step comes by the states in which some of the arcs from a place have been followed and the
others have not. -/
theorem reached_within
    {steps place : Nat} {rest followed : List Nat}
    (queueShape : (after (arcs nodes edges) nodes.length steps).queue = place :: rest)
    (split : successors (arcs nodes edges) place = followed ++ pending) :
    ∃ within, Reached nodes edges pending within ∧
      followed.foldl arrive
        ((after (arcs nodes edges) nodes.length steps).leave place rest) = within ∧
      pending.foldl arrive within = after (arcs nodes edges) nodes.length (steps + 1) := by
  have left := (reached_after nodes edges steps).leave queueShape
  rw [split] at left
  refine ⟨_, left.foldl_arrive, rfl, ?_⟩
  rw [← List.foldl_append, ← split]
  exact (step_of_queue queueShape).symm

/-! ## Numbers -/

/-- Whether the numbers and the queue of a sorting are as the edges say. -/
structure Tallied (nodes : List Node) (edges : List Edge) (pending : List Nat) (sorting : Sorting) :
    Prop where
  size : sorting.waiting.length = nodes.length
  number : ∀ place < nodes.length, sorting.waiting[place]? =
    some ((openEdges nodes edges sorting.order place).length + pending.count place)
  pending_lt : ∀ place ∈ pending, place < nodes.length
  entered_lt : ∀ place ∈ sorting.order ++ sorting.queue, place < nodes.length
  /-- No place is in the queue twice, or again after it has been left. -/
  once : (sorting.order ++ sorting.queue).Nodup
  entered : ∀ place, place ∈ sorting.order ++ sorting.queue ↔ sorting.waiting[place]? = some 0

/-- Whether one can be taken from the number of a place, which enters the queue if nothing is left
of the number. -/
def CanArrive (sorting : Sorting) (place : Nat) : Prop :=
  ∃ number, sorting.waiting[place]? = some (number + 1) ∧
    (sorting.arrive place).waiting = sorting.waiting.set place number ∧
    (sorting.arrive place).queue = sorting.queue ++ if number = 0 then [place] else []

theorem Reached.sound (reached : Reached nodes edges pending sorting) :
    Sound (arcs nodes edges) nodes.length pending sorting ∧
      ∀ place ∈ pending, place < nodes.length := by
  have bounded : ∀ source target, Leads (arcs nodes edges) source target → target < nodes.length :=
    fun _ _ arc => (lt_length_of_mem_arcs arc).2
  induction reached with
  | start =>
      exact ⟨sound_start _ _, List.forall_mem_nil _⟩
  | leave _ queueShape inner =>
      exact ⟨inner.1.leave queueShape, fun _ member => lt_of_mem_successors bounded member⟩
  | follow _ inner =>
      obtain ⟨inside, others⟩ := List.forall_mem_cons.mp inner.2
      exact ⟨inner.1.arrive inside, others⟩

theorem Reached.tallied (reached : Reached nodes edges pending sorting) :
    Tallied nodes edges pending sorting := by
  obtain ⟨sound, inside⟩ := reached.sound
  have stands : ∀ place < nodes.length,
      sorting.waiting[place]? = some (sorting.waiting.getD place 0) := by
    intro place within
    rw [← sound.size] at within
    rw [List.getD_eq_getElem?_getD, List.getElem?_eq_getElem within, Option.getD_some]
  constructor
  · exact sound.size
  · intro place within
    rw [stands place within, sound.counted place within, length_openEdges]
  · exact inside
  · intro place member
    exact ((sound.ready place).mp member).1
  · exact sound.distinct
  · intro place
    rw [sound.ready]
    by_cases within : place < nodes.length
    · rw [stands place within, Option.some.injEq, and_iff_right within]
    · have outside : sorting.waiting.length ≤ place := by
        rw [sound.size]
        omega
      simp [within, outside]

theorem Tallied.canArrive
    {place : Nat} (tallied : Tallied nodes edges (place :: pending) sorting) :
    sorting.CanArrive place := by
  have stands := tallied.number place (tallied.pending_lt place List.mem_cons_self)
  rw [List.count_cons_self, ← Nat.add_assoc] at stands
  refine ⟨_, stands, ?_, ?_⟩
  · simp [arrive, List.getD_eq_getElem?_getD, stands]
  · simp only [arrive, List.getD_eq_getElem?_getD, stands, Option.getD_some, Nat.add_sub_cancel]
    split
    · rfl
    · exact (List.append_nil _).symm

end Sorting

/-- In front of each step and in its midst the numbers count edges that have not been followed, so
that one can be taken from the number of each place that an arc is followed to. -/
theorem sorting_tallied (nodes : List Node) (edges : List Edge) :
    (∀ arc ∈ arcs nodes edges, arc.1 < nodes.length ∧ arc.2 < nodes.length) ∧
      (∀ pending sorting, Sorting.Reached nodes edges pending sorting →
        Sorting.Tallied nodes edges pending sorting ∧
          ∀ place ∈ pending.head?, sorting.CanArrive place) ∧
      (∀ steps, Sorting.Reached nodes edges []
        (Sorting.after (arcs nodes edges) nodes.length steps)) ∧
      (∀ steps place rest followed pending,
        (Sorting.after (arcs nodes edges) nodes.length steps).queue = place :: rest →
        successors (arcs nodes edges) place = followed ++ pending →
          ∃ within, Sorting.Reached nodes edges pending within ∧
            followed.foldl Sorting.arrive
              ((Sorting.after (arcs nodes edges) nodes.length steps).leave place rest) = within ∧
            pending.foldl Sorting.arrive within =
              Sorting.after (arcs nodes edges) nodes.length (steps + 1)) ∧
      (Sorting.after (arcs nodes edges) nodes.length nodes.length).queue = [] := by
  refine ⟨?_, ?_, ?_, ?_, queue_placeOrder nodes edges⟩
  · intro arc member
    exact lt_length_of_mem_arcs member
  · intro pending sorting reached
    refine ⟨reached.tallied, ?_⟩
    cases pending with
    | nil =>
        nofun
    | cons place pending =>
        rintro _ ⟨⟩
        exact reached.tallied.canArrive
  · intro steps
    exact Sorting.reached_after nodes edges steps
  · intro steps place rest followed pending queueShape split
    exact Sorting.reached_within queueShape split

-- Parallel edges are counted one by one, and the second node with an id has none.
example :
    (List.range 2).map (Sorting.after
        (arcs [.ofOperation "a" "op", .ofOperation "a" "op", .ofOperation "b" "op"]
          [.between "e" "a" "b", .between "f" "a" "b"]) 3) =
      [⟨[0, 0, 2], [0, 1], []⟩, ⟨[0, 0, 0], [1, 2], [0]⟩] := by
  decide

end TypeGraph
