import TypeGraph.Graph.Cycle
import TypeGraph.Proofs.Graph.Walk

/-!
# The search for cycles

A place is finished when everything that it leads to is finished, so that only finitely many arcs
can be followed from it. If the search comes upon no cycle then it finishes all places, and the
resolved edges are acyclic. If it comes upon its own path, then this path is a cycle; it has room
enough never to give up for another reason.
-/

namespace TypeGraph

/-- Whether arcs can be followed only finitely often from a place. -/
def Finishes (arcs : List (Nat × Nat)) (place : Nat) : Prop :=
  Acc (fun target source => Leads arcs source target) place

theorem finishes_of_successors
    {arcs : List (Nat × Nat)} {place : Nat}
    (finish : ∀ target ∈ successors arcs place, Finishes arcs target) :
    Finishes arcs place := by
  refine Acc.intro place fun target arc => finish target ?_
  exact List.mem_map.mpr ⟨(place, target), List.mem_filter.mpr ⟨arc, by simp⟩, rfl⟩

/-- What a search from a place does with the places finished before: it keeps them and adds the
place. -/
def Extends (arcs : List (Nat × Nat)) (finished found : List Nat) : Prop :=
  (∀ place ∈ finished, Finishes arcs place) →
    finished ⊆ found ∧ ∀ place ∈ found, Finishes arcs place

/-- Searches one after another finish all the places that they begin at. -/
theorem foldlM_search
    {arcs : List (Nat × Nat)} {search : List Nat → Nat → Option (List Nat)}
    (single : ∀ finished place found, search finished place = some found →
      Extends arcs finished found ∧ place ∈ found)
    {places finished found : List Nat}
    (result : places.foldlM search finished = some found)
    (before : ∀ place ∈ finished, Finishes arcs place) :
    places ⊆ found ∧ finished ⊆ found ∧ ∀ place ∈ found, Finishes arcs place := by
  induction places generalizing finished with
  | nil =>
      simp only [List.foldlM_nil, Option.pure_def, Option.some.injEq] at result
      subst result
      exact ⟨List.nil_subset _, List.Subset.refl _, before⟩
  | cons place rest inner =>
      rw [List.foldlM_cons] at result
      obtain ⟨middle, first, later⟩ := Option.bind_eq_some_iff.mp result
      obtain ⟨extended, placeFound⟩ := single finished place middle first
      obtain ⟨kept, middleFinishes⟩ := extended before
      obtain ⟨restFound, middleKept, foundFinishes⟩ := inner later middleFinishes
      exact ⟨List.cons_subset.mpr ⟨middleKept placeFound, restFound⟩,
        List.Subset.trans kept middleKept, foundFinishes⟩

/-- A search that does not come upon its own path finishes the place that it begins at. -/
theorem searchFrom_some
    {arcs : List (Nat × Nat)} (room : Nat) (path finished : List Nat) (place : Nat)
    (found : List Nat)
    (result : searchFrom arcs room path finished place = some found) :
    Extends arcs finished found ∧ place ∈ found := by
  induction room generalizing path finished place found with
  | zero =>
      simp only [searchFrom] at result
      split at result
      · cases result
      · split at result
        · next known =>
          cases result
          exact ⟨fun before => ⟨List.Subset.refl _, before⟩, known⟩
        · cases result
  | succ room inner =>
      simp only [searchFrom] at result
      split at result
      · cases result
      · split at result
        · next known =>
          cases result
          exact ⟨fun before => ⟨List.Subset.refl _, before⟩, known⟩
        · obtain ⟨beyond, searched, rfl⟩ := Option.map_eq_some_iff.mp result
          refine ⟨fun before => ?_, List.mem_cons_self⟩
          obtain ⟨targetsFound, kept, beyondFinishes⟩ :=
            foldlM_search (inner (place :: path)) searched before
          refine ⟨List.subset_cons_of_subset place kept, ?_⟩
          intro other member
          rcases List.mem_cons.mp member with rfl | later
          · exact finishes_of_successors fun target follows =>
              beyondFinishes target (targetsFound follows)
          · exact beyondFinishes other later

/-- Where no cycle is found there is none. -/
theorem acyclic_arcs_of_hasCycle_eq_false
    {nodes : List Node} {edges : List Edge}
    (none : hasCycle nodes edges = false) :
    Acyclic (arcs nodes edges) := by
  obtain ⟨found, searched⟩ := Option.isSome_iff_exists.mp (by
    simpa [hasCycle] using none :
      ((List.range nodes.length).foldlM
        (searchFrom (arcs nodes edges) nodes.length []) []).isSome)
  obtain ⟨all, _, finishes⟩ :=
    foldlM_search (searchFrom_some nodes.length []) searched (by simp)
  refine acyclic_of_wellFounded ⟨fun place => Acc.intro place ?_⟩
  intro target arc
  have inside : target < nodes.length := (lt_length_of_mem_arcs arc).2
  exact finishes target (all (List.mem_range.mpr inside))

theorem acyclic_links_of_hasCycle_eq_false
    {nodes : List Node} {edges : List Edge}
    (none : hasCycle nodes edges = false) :
    Acyclic (links nodes edges) :=
  acyclic_arcs_iff.mp (acyclic_arcs_of_hasCycle_eq_false none)

/-! ## Cycles that are found -/

/-- Whether a path goes back along arcs from a place, without a place twice, and the room is that of
the other places. -/
structure OnPath (arcs : List (Nat × Nat)) (count room : Nat) (path : List Nat) (place : Nat) :
    Prop where
  chain : List.IsChain (fun later earlier => Leads arcs earlier later) (place :: path)
  distinct : path.Nodup
  bounded : ∀ other ∈ place :: path, other < count
  size : path.length + room = count

/-- From every place of the path a walk leads to the place that the path goes back from. -/
theorem OnPath.walk
    {arcs : List (Nat × Nat)} {count room : Nat} {path : List Nat} {place other : Nat}
    (onPath : OnPath arcs count room path place)
    (member : other ∈ path) :
    Relation.TransGen (Leads arcs) other place := by
  let walk (later earlier : Nat) : Prop := Relation.TransGen (Leads arcs) earlier later
  have walks : List.IsChain walk (place :: path) :=
    onPath.chain.imp fun _ _ arc => Relation.TransGen.single arc
  have transitive : Trans walk walk walk :=
    ⟨fun first second => Relation.TransGen.trans second first⟩
  exact (List.pairwise_cons.mp (List.isChain_iff_pairwise.mp walks)).1 other member

/-- A path without room holds all places. -/
theorem OnPath.mem_of_full
    {arcs : List (Nat × Nat)} {count : Nat} {path : List Nat} {place : Nat}
    (onPath : OnPath arcs count 0 path place) :
    place ∈ path := by
  by_contra absent
  have distinct : (place :: path).Nodup := List.nodup_cons.mpr ⟨absent, onPath.distinct⟩
  have contained : place :: path ⊆ List.range count :=
    fun other member => List.mem_range.mpr (onPath.bounded other member)
  have bound := distinct.length_le_of_subset contained
  have size := onPath.size
  rw [List.length_cons, List.length_range] at bound
  omega

/-- A path that is not closed can be followed to each successor of its place. -/
theorem OnPath.cons
    {arcs : List (Nat × Nat)} {count room : Nat} {path : List Nat} {place target : Nat}
    (onPath : OnPath arcs count (room + 1) path place)
    (bounded : ∀ source target, Leads arcs source target → target < count)
    (opened : place ∉ path)
    (follows : target ∈ successors arcs place) :
    OnPath arcs count room (place :: path) target := by
  obtain ⟨arc, member, rfl⟩ := List.mem_map.mp follows
  obtain ⟨known, here⟩ := List.mem_filter.mp member
  have leads : Leads arcs place arc.2 := by
    rw [← beq_iff_eq.mp here]
    exact known
  refine ⟨List.IsChain.cons_cons leads onPath.chain, ?_, ?_, ?_⟩
  · exact List.nodup_cons.mpr ⟨opened, onPath.distinct⟩
  · intro other member
    rcases List.mem_cons.mp member with rfl | earlier
    · exact bounded place arc.2 leads
    · exact onPath.bounded other earlier
  · have size := onPath.size
    rw [List.length_cons]
    omega

theorem onPath_nil {arcs : List (Nat × Nat)} {count place : Nat} (inside : place < count) :
    OnPath arcs count count [] place where
  chain := List.isChain_singleton place
  distinct := List.nodup_nil
  bounded := by
    intro other member
    rw [List.mem_singleton.mp member]
    exact inside
  size := Nat.zero_add count

theorem searchFrom_of_mem_path
    (arcs : List (Nat × Nat)) (room : Nat) {path : List Nat} (finished : List Nat) {place : Nat}
    (closed : place ∈ path) :
    searchFrom arcs room path finished place = none := by
  cases room with
  | zero =>
      rw [searchFrom, if_pos closed]
  | succ room =>
      rw [searchFrom, if_pos closed]

theorem foldlM_congr_of_mem
    {search other : List Nat → Nat → Option (List Nat)} {places : List Nat}
    (same : ∀ place ∈ places, ∀ finished, search finished place = other finished place)
    (finished : List Nat) :
    places.foldlM search finished = places.foldlM other finished := by
  induction places generalizing finished with
  | nil =>
      rfl
  | cons place rest inner =>
      have sameRest := inner fun later member => same later (List.mem_cons_of_mem place member)
      rw [List.foldlM_cons, List.foldlM_cons, same place List.mem_cons_self, funext sameRest]

/-- A search never lacks room, so that more of it changes nothing. -/
theorem searchFrom_of_more_room
    {arcs : List (Nat × Nat)} {count : Nat}
    (bounded : ∀ source target, Leads arcs source target → target < count)
    {room more : Nat} {path : List Nat} {place : Nat}
    (onPath : OnPath arcs count room path place)
    (enough : room ≤ more)
    (finished : List Nat) :
    searchFrom arcs more path finished place = searchFrom arcs room path finished place := by
  induction room generalizing more path finished place with
  | zero =>
      rw [searchFrom_of_mem_path arcs more finished onPath.mem_of_full,
        searchFrom_of_mem_path arcs 0 finished onPath.mem_of_full]
  | succ room inner =>
      obtain ⟨beyond, rfl⟩ := Nat.exists_eq_add_of_le' enough
      have shorter : room ≤ beyond + room := Nat.le_add_left room beyond
      rw [← Nat.add_assoc, searchFrom, searchFrom]
      by_cases closed : place ∈ path
      · rw [if_pos closed, if_pos closed]
      · rw [if_neg closed, if_neg closed]
        have same := foldlM_congr_of_mem
          (fun target follows => inner (onPath.cons bounded closed follows) shorter) finished
        rw [same]

theorem exists_of_foldlM_eq_none
    {search : List Nat → Nat → Option (List Nat)} {places finished : List Nat}
    (result : places.foldlM search finished = none) :
    ∃ place ∈ places, ∃ before, search before place = none := by
  induction places generalizing finished with
  | nil =>
      cases result
  | cons place rest inner =>
      rw [List.foldlM_cons] at result
      cases first : search finished place with
      | none =>
          exact ⟨place, List.mem_cons_self, finished, first⟩
      | some middle =>
          rw [first] at result
          obtain ⟨other, member, before, failed⟩ := inner result
          exact ⟨other, List.mem_cons_of_mem place member, before, failed⟩

/-- A search fails only upon its own path. -/
theorem not_acyclic_of_searchFrom_eq_none
    {arcs : List (Nat × Nat)} {count : Nat}
    (bounded : ∀ source target, Leads arcs source target → target < count)
    {room : Nat} {path finished : List Nat} {place : Nat}
    (onPath : OnPath arcs count room path place)
    (result : searchFrom arcs room path finished place = none) :
    ¬ Acyclic arcs := by
  induction room generalizing path finished place with
  | zero =>
      exact fun acyclic => acyclic place (onPath.walk onPath.mem_of_full)
  | succ room inner =>
      rw [searchFrom] at result
      by_cases closed : place ∈ path
      · exact fun acyclic => acyclic place (onPath.walk closed)
      · rw [if_neg closed] at result
        split at result
        · cases result
        · rw [Option.map_eq_none_iff] at result
          obtain ⟨target, follows, before, failed⟩ := exists_of_foldlM_eq_none result
          exact inner (onPath.cons bounded closed follows) failed

theorem not_acyclic_arcs_of_hasCycle
    {nodes : List Node} {edges : List Edge}
    (cyclic : hasCycle nodes edges) :
    ¬ Acyclic (arcs nodes edges) := by
  have failed : (List.range nodes.length).foldlM
      (searchFrom (arcs nodes edges) nodes.length []) [] = none := by
    simpa [hasCycle] using cyclic
  obtain ⟨place, member, before, result⟩ := exists_of_foldlM_eq_none failed
  exact not_acyclic_of_searchFrom_eq_none (fun _ _ arc => (lt_length_of_mem_arcs arc).2)
    (onPath_nil (List.mem_range.mp member)) result

/-- The search for a cycle is the same with any room that is enough for all places. -/
theorem foldlM_searchFrom_of_more_room
    {nodes : List Node} {edges : List Edge} {room : Nat}
    (enough : nodes.length ≤ room) :
    (List.range nodes.length).foldlM (searchFrom (arcs nodes edges) room []) [] =
      (List.range nodes.length).foldlM (searchFrom (arcs nodes edges) nodes.length []) [] := by
  apply foldlM_congr_of_mem
  intro place member finished
  exact searchFrom_of_more_room (fun _ _ arc => (lt_length_of_mem_arcs arc).2)
    (onPath_nil (List.mem_range.mp member)) enough finished

/-- A cycle is found exactly where resolved edges are not acyclic. -/
theorem hasCycle_iff {nodes : List Node} {edges : List Edge} :
    hasCycle nodes edges ↔ ¬ Acyclic (links nodes edges) := by
  constructor
  · exact fun cyclic acyclic =>
      not_acyclic_arcs_of_hasCycle cyclic (acyclic_arcs_iff.mpr acyclic)
  · intro cyclic
    by_contra none
    rw [Bool.not_eq_true] at none
    exact cyclic (acyclic_links_of_hasCycle_eq_false none)

end TypeGraph
