import TypeGraph.Graph.Component
import TypeGraph.Proofs.Distinct
import TypeGraph.Proofs.Graph.Walk

/-!
# Partitions of ids

Each id starts as a group of its own, and each edge joins the groups of its two ends. Joining groups
neither loses an id nor gains one, keeps together what is together, and brings together the ends of
the edge. The connected groups therefore hold each id once, and no edge leads from one group to
another.
-/

namespace TypeGraph

/-- Makes one group of the groups that hold either id, in the place of the first of them. -/
def joinGroups (left right : String) : List (List String) → List (List String)
  | [] => []
  | group :: rest =>
    let touched (other : List String) : Bool := other.contains left || other.contains right
    if touched group then
      (group ++ (rest.filter touched).flatten) :: rest.filter fun other => !touched other
    else group :: joinGroups left right rest

/-- The groups of ids that edges connect. -/
def connectedGroups (ids : List String) (edges : List Edge) : List (List String) :=
  edges.foldl (fun groups edge => joinGroups edge.source edge.target groups)
    (ids.eraseDups.map fun id => [id])

/-- Whether two ids are in one group. -/
def Together (groups : List (List String)) (left right : String) : Prop :=
  ∃ group ∈ groups, left ∈ group ∧ right ∈ group

/-! ## Joining two groups -/

section Joining

variable {left right : String}

/-- Whether a group holds one of two ids. -/
def touches (left right : String) (group : List String) : Bool :=
  group.contains left || group.contains right

theorem joinGroups_of_touches
    {group : List String} {rest : List (List String)}
    (touched : touches left right group) :
    joinGroups left right (group :: rest) =
      (group ++ (rest.filter (touches left right)).flatten) ::
        rest.filter fun other => !touches left right other :=
  if_pos touched

theorem joinGroups_of_not_touches
    {group : List String} {rest : List (List String)}
    (apart : ¬ touches left right group) :
    joinGroups left right (group :: rest) = group :: joinGroups left right rest :=
  if_neg apart

theorem flatten_joinGroups (left right : String) (groups : List (List String)) :
    (joinGroups left right groups).flatten.Perm groups.flatten := by
  induction groups with
  | nil =>
      exact List.Perm.refl []
  | cons group rest inner =>
      by_cases touched : touches left right group
      · rw [joinGroups_of_touches touched, List.flatten_cons, List.flatten_cons,
          List.append_assoc, ← List.flatten_append]
        exact (List.filter_append_perm (touches left right) rest).flatten.append_left group
      · rw [joinGroups_of_not_touches touched, List.flatten_cons, List.flatten_cons]
        exact inner.append_left group

theorem ne_nil_of_mem_joinGroups
    {groups : List (List String)}
    (nonempty : ∀ group ∈ groups, group ≠ []) :
    ∀ group ∈ joinGroups left right groups, group ≠ [] := by
  induction groups with
  | nil =>
      intro group member
      cases member
  | cons first rest inner =>
      have firstNonempty := nonempty first List.mem_cons_self
      have restNonempty : ∀ group ∈ rest, group ≠ [] :=
        fun group member => nonempty group (List.mem_cons_of_mem first member)
      intro group member
      by_cases touched : touches left right first
      · rw [joinGroups_of_touches touched] at member
        rcases List.mem_cons.mp member with rfl | later
        · exact List.append_ne_nil_of_left_ne_nil firstNonempty _
        · exact restNonempty group (List.mem_filter.mp later).1
      · rw [joinGroups_of_not_touches touched] at member
        rcases List.mem_cons.mp member with rfl | later
        · exact firstNonempty
        · exact inner restNonempty group later

/-- Joining groups keeps together what is together. -/
theorem Together.kept
    {groups : List (List String)} {first second : String}
    (together : Together groups first second)
    (left right : String) :
    Together (joinGroups left right groups) first second := by
  induction groups with
  | nil =>
      exact together
  | cons group rest inner =>
      obtain ⟨holder, member, firstHeld, secondHeld⟩ := together
      by_cases touched : touches left right group
      · rw [joinGroups_of_touches touched]
        rcases List.mem_cons.mp member with rfl | later
        · exact ⟨_, List.mem_cons_self, List.mem_append_left _ firstHeld,
            List.mem_append_left _ secondHeld⟩
        · by_cases alsoTouched : touches left right holder
          · have joined : holder ∈ rest.filter (touches left right) :=
              List.mem_filter.mpr ⟨later, alsoTouched⟩
            exact ⟨_, List.mem_cons_self,
              List.mem_append_right _ (List.mem_flatten_of_mem joined firstHeld),
              List.mem_append_right _ (List.mem_flatten_of_mem joined secondHeld)⟩
          · have kept : holder ∈ rest.filter fun other => !touches left right other :=
              List.mem_filter.mpr ⟨later, by simp [alsoTouched]⟩
            exact ⟨holder, List.mem_cons_of_mem _ kept, firstHeld, secondHeld⟩
      · rw [joinGroups_of_not_touches touched]
        rcases List.mem_cons.mp member with rfl | later
        · exact ⟨holder, List.mem_cons_self, firstHeld, secondHeld⟩
        · obtain ⟨joined, joinedMember, held⟩ := inner ⟨holder, later, firstHeld, secondHeld⟩
          exact ⟨joined, List.mem_cons_of_mem _ joinedMember, held⟩

/-- Joining groups brings the two ids together. -/
theorem together_joinGroups
    {groups : List (List String)}
    (leftHeld : left ∈ groups.flatten)
    (rightHeld : right ∈ groups.flatten) :
    Together (joinGroups left right groups) left right := by
  induction groups with
  | nil =>
      cases leftHeld
  | cons group rest inner =>
      rw [List.flatten_cons, List.mem_append] at leftHeld rightHeld
      by_cases touched : touches left right group
      · rw [joinGroups_of_touches touched]
        have collected : ∀ id, id = left ∨ id = right → id ∈ rest.flatten →
            id ∈ (rest.filter (touches left right)).flatten := by
          intro id either later
          obtain ⟨holder, member, held⟩ := List.mem_flatten.mp later
          have holderTouched : touches left right holder := by
            rcases either with rfl | rfl <;> simp [touches, held]
          exact List.mem_flatten_of_mem (List.mem_filter.mpr ⟨member, holderTouched⟩) held
        refine ⟨_, List.mem_cons_self, ?_, ?_⟩
        · exact List.mem_append.mpr (leftHeld.imp_right (collected left (Or.inl rfl)))
        · exact List.mem_append.mpr (rightHeld.imp_right (collected right (Or.inr rfl)))
      · rw [joinGroups_of_not_touches touched]
        simp only [touches, List.contains_eq_mem, Bool.or_eq_true, decide_eq_true_eq, not_or]
          at touched
        obtain ⟨joined, member, held⟩ :=
          inner (leftHeld.resolve_left touched.1) (rightHeld.resolve_left touched.2)
        exact ⟨joined, List.mem_cons_of_mem _ member, held⟩

/-- Whether ids in one group are related. -/
def Related (relation : String → String → Prop) (groups : List (List String)) : Prop :=
  ∀ group ∈ groups, ∀ first ∈ group, ∀ second ∈ group, relation first second

/-- Joining groups relates nothing but what the two ids relate. -/
theorem related_joinGroups
    {relation : String → String → Prop}
    (equivalence : Equivalence relation)
    (joined : relation left right)
    {groups : List (List String)}
    (related : Related relation groups) :
    Related relation (joinGroups left right groups) := by
  -- A group that is touched reaches the first id through either of the two.
  have reaches : ∀ group ∈ groups, touches left right group → ∀ id ∈ group, relation id left := by
    intro group member touched id held
    simp only [touches, Bool.or_eq_true, List.contains_iff_mem] at touched
    rcases touched with leftHeld | rightHeld
    · exact related group member id held left leftHeld
    · exact equivalence.trans (related group member id held right rightHeld)
        (equivalence.symm joined)
  induction groups with
  | nil =>
      exact related
  | cons group rest inner =>
      have relatedRest : Related relation rest :=
        fun other member => related other (List.mem_cons_of_mem group member)
      by_cases touched : touches left right group
      · rw [joinGroups_of_touches touched]
        have collected : ∀ id ∈ group ++ (rest.filter (touches left right)).flatten,
            relation id left := by
          intro id held
          rcases List.mem_append.mp held with here | there
          · exact reaches group List.mem_cons_self touched id here
          · obtain ⟨other, member, otherHeld⟩ := List.mem_flatten.mp there
            obtain ⟨known, otherTouched⟩ := List.mem_filter.mp member
            exact reaches other (List.mem_cons_of_mem group known) otherTouched id otherHeld
        intro joinedGroup member first firstHeld second secondHeld
        rcases List.mem_cons.mp member with rfl | later
        · exact equivalence.trans (collected first firstHeld)
            (equivalence.symm (collected second secondHeld))
        · exact relatedRest joinedGroup (List.mem_filter.mp later).1 first firstHeld second
            secondHeld
      · rw [joinGroups_of_not_touches touched]
        intro joinedGroup member
        rcases List.mem_cons.mp member with rfl | later
        · exact related joinedGroup List.mem_cons_self
        · exact inner relatedRest
            (fun other known => reaches other (List.mem_cons_of_mem group known)) joinedGroup later

/-- Whether each group begins with an id that is earlier than all others in it and in the groups
behind it. -/
inductive Led (earlier : String → String → Prop) : List (List String) → Prop
  | nil : Led earlier []
  | cons {id : String} {members : List String} {rest : List (List String)} :
      (∀ other ∈ members ++ rest.flatten, earlier id other) →
      Led earlier rest →
      Led earlier ((id :: members) :: rest)

namespace Led

variable {earlier : String → String → Prop} {groups : List (List String)}

theorem of_pairwise {ids : List String} (increasing : ids.Pairwise earlier) :
    Led earlier (ids.map fun id => [id]) := by
  induction ids with
  | nil =>
      exact nil
  | cons id rest inner =>
      have ⟨first, increasingRest⟩ := List.pairwise_cons.mp increasing
      refine cons (fun other member => first other ?_) (inner increasingRest)
      simpa [← List.flatMap_def] using member

theorem filter (led : Led earlier groups) (keep : List String → Bool) :
    Led earlier (groups.filter keep) := by
  induction led with
  | nil =>
      exact nil
  | @cons id members rest first _ inner =>
      by_cases kept : keep (id :: members)
      · rw [List.filter_cons_of_pos kept]
        refine cons (fun other member => first other ?_) inner
        have part : (rest.filter keep).flatten.Sublist rest.flatten :=
          List.filter_sublist.flatten
        exact (part.append_left members).subset member
      · rwa [List.filter_cons_of_neg kept]

theorem of_append {front : List (List String)} (led : Led earlier (front ++ groups)) :
    Led earlier groups := by
  induction front with
  | nil =>
      exact led
  | cons group front inner =>
      cases led with
      | cons _ later =>
          exact inner later

/-- The group that takes others in keeps its first id, which is earlier than all of theirs. -/
theorem joinGroups (led : Led earlier groups) (left right : String) :
    Led earlier (joinGroups left right groups) := by
  induction led with
  | nil =>
      exact nil
  | @cons id members rest first later inner =>
      by_cases touched : touches left right (id :: members)
      · rw [joinGroups_of_touches touched, List.cons_append]
        refine cons (fun other member => first other ?_) (later.filter _)
        have collected := (List.filter_append_perm (touches left right) rest).flatten
        rw [List.flatten_append] at collected
        rw [List.append_assoc] at member
        exact (collected.append_left members).subset member
      · rw [joinGroups_of_not_touches touched]
        refine cons (fun other member => first other ?_) inner
        exact ((flatten_joinGroups left right rest).append_left members).subset member

/-- Of two groups, the first one has an id that is earlier than all of the second one. -/
theorem pairwise (led : Led earlier groups) :
    groups.Pairwise fun front back => ∃ id ∈ front, ∀ other ∈ back, earlier id other := by
  induction led with
  | nil =>
      exact List.Pairwise.nil
  | @cons id members rest first _ inner =>
      refine List.pairwise_cons.mpr ⟨fun back member => ?_, inner⟩
      refine ⟨id, List.mem_cons_self, fun other held => first other ?_⟩
      exact List.mem_append_right members (List.mem_flatten_of_mem member held)

end Led

end Joining

/-! ## Connected groups -/

/-- The groups after all edges have joined groups. -/
def joinAll (groups : List (List String)) (edges : List Edge) : List (List String) :=
  edges.foldl (fun groups edge => joinGroups edge.source edge.target groups) groups

theorem joinAll_cons (groups : List (List String)) (edge : Edge) (rest : List Edge) :
    joinAll groups (edge :: rest) = joinAll (joinGroups edge.source edge.target groups) rest :=
  rfl

theorem flatten_joinAll (groups : List (List String)) (edges : List Edge) :
    (joinAll groups edges).flatten.Perm groups.flatten := by
  induction edges generalizing groups with
  | nil =>
      exact List.Perm.refl _
  | cons edge rest inner =>
      exact (inner _).trans (flatten_joinGroups edge.source edge.target groups)

theorem Together.kept_joinAll
    {groups : List (List String)} {first second : String}
    (together : Together groups first second)
    (edges : List Edge) :
    Together (joinAll groups edges) first second := by
  induction edges generalizing groups with
  | nil =>
      exact together
  | cons edge rest inner =>
      exact inner (together.kept edge.source edge.target)

theorem together_joinAll
    {groups : List (List String)} {edges : List Edge} {edge : Edge}
    (member : edge ∈ edges)
    (sourceHeld : edge.source ∈ groups.flatten)
    (targetHeld : edge.target ∈ groups.flatten) :
    Together (joinAll groups edges) edge.source edge.target := by
  induction edges generalizing groups with
  | nil =>
      cases member
  | cons first rest inner =>
      rw [joinAll_cons]
      rcases List.mem_cons.mp member with rfl | later
      · exact (together_joinGroups sourceHeld targetHeld).kept_joinAll rest
      · have same := flatten_joinGroups first.source first.target groups
        exact inner later (same.mem_iff.mpr sourceHeld) (same.mem_iff.mpr targetHeld)

theorem ne_nil_of_mem_joinAll
    {groups : List (List String)}
    (nonempty : ∀ group ∈ groups, group ≠ [])
    (edges : List Edge) :
    ∀ group ∈ joinAll groups edges, group ≠ [] := by
  induction edges generalizing groups with
  | nil =>
      exact nonempty
  | cons edge rest inner =>
      exact inner (ne_nil_of_mem_joinGroups nonempty)

theorem related_joinAll
    {relation : String → String → Prop}
    (equivalence : Equivalence relation)
    {groups : List (List String)}
    (related : Related relation groups)
    (edges : List Edge)
    (joined : ∀ edge ∈ edges, relation edge.source edge.target) :
    Related relation (joinAll groups edges) := by
  induction edges generalizing groups with
  | nil =>
      exact related
  | cons edge rest inner =>
      have first := related_joinGroups equivalence (joined edge List.mem_cons_self) related
      exact inner first fun later member => joined later (List.mem_cons_of_mem edge member)

theorem Led.joinAll
    {earlier : String → String → Prop} {groups : List (List String)}
    (led : Led earlier groups)
    (edges : List Edge) :
    Led earlier (joinAll groups edges) := by
  induction edges generalizing groups with
  | nil =>
      exact led
  | cons edge rest inner =>
      exact inner (led.joinGroups edge.source edge.target)

/-- Each id is in exactly one group, and there once. -/
theorem flatten_connectedGroups (ids : List String) (edges : List Edge) :
    (connectedGroups ids edges).flatten.Perm ids.eraseDups := by
  have singletons : (ids.eraseDups.map fun id => [id]).flatten = ids.eraseDups := by
    rw [← List.flatMap_def, List.flatMap_singleton']
  have joined := flatten_joinAll (ids.eraseDups.map fun id => [id]) edges
  rwa [singletons] at joined

theorem nodup_flatten_connectedGroups (ids : List String) (edges : List Edge) :
    (connectedGroups ids edges).flatten.Nodup :=
  (flatten_connectedGroups ids edges).nodup_iff.mpr (nodup_eraseDups ids)

theorem mem_flatten_connectedGroups {ids : List String} {edges : List Edge} {id : String} :
    id ∈ (connectedGroups ids edges).flatten ↔ id ∈ ids :=
  (flatten_connectedGroups ids edges).mem_iff.trans List.mem_eraseDups

/-- The ends of an edge are in one group. -/
theorem together_connectedGroups
    {ids : List String} {edges : List Edge} {edge : Edge}
    (member : edge ∈ edges)
    (sourceKnown : edge.source ∈ ids)
    (targetKnown : edge.target ∈ ids) :
    Together (connectedGroups ids edges) edge.source edge.target := by
  refine together_joinAll member ?_ ?_
  · exact List.mem_flatten_of_mem
      (List.mem_map_of_mem (List.mem_eraseDups.mpr sourceKnown)) List.mem_cons_self
  · exact List.mem_flatten_of_mem
      (List.mem_map_of_mem (List.mem_eraseDups.mpr targetKnown)) List.mem_cons_self

/-- Ids in one group are related as soon as the ends of edges are. -/
theorem related_connectedGroups
    {relation : String → String → Prop}
    (equivalence : Equivalence relation)
    (ids : List String) {edges : List Edge}
    (joined : ∀ edge ∈ edges, relation edge.source edge.target) :
    Related relation (connectedGroups ids edges) := by
  refine related_joinAll equivalence ?_ edges joined
  intro group member first firstHeld second secondHeld
  obtain ⟨id, _, rfl⟩ := List.mem_map.mp member
  rw [List.mem_singleton.mp firstHeld, List.mem_singleton.mp secondHeld]
  exact equivalence.refl id

/-- Groups stand in the order of the first occurrences of their ids. -/
theorem led_connectedGroups (ids : List String) (edges : List Edge) :
    Led (fun first second => ids.idxOf first < ids.idxOf second) (connectedGroups ids edges) :=
  (Led.of_pairwise (pairwise_idxOf_eraseDups ids)).joinAll edges

theorem ne_nil_of_mem_connectedGroups
    {ids : List String} {edges : List Edge} {group : List String}
    (member : group ∈ connectedGroups ids edges) :
    group ≠ [] := by
  refine ne_nil_of_mem_joinAll ?_ edges group member
  intro single singleMember
  obtain ⟨id, _, rfl⟩ := List.mem_map.mp singleMember
  exact List.cons_ne_nil id []

/-- Of groups that hold no id twice, two that hold one id are the same. -/
theorem eq_of_mem_of_nodup_flatten
    {groups : List (List String)}
    (distinct : groups.flatten.Nodup)
    {first second : List String}
    (firstMember : first ∈ groups)
    (secondMember : second ∈ groups)
    {id : String}
    (inFirst : id ∈ first)
    (inSecond : id ∈ second) :
    first = second := by
  by_contra different
  have symmetric : Std.Symm (@List.Disjoint String) := ⟨fun _ _ => List.Disjoint.symm⟩
  have disjoint : groups.Pairwise List.Disjoint := (List.nodup_flatten.mp distinct).2
  exact disjoint.forall firstMember secondMember different inFirst inSecond

end TypeGraph
