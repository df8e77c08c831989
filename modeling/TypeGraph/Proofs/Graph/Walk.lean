import Mathlib.Order.WellFoundedSet
import TypeGraph.Proofs.Graph.Place

/-!
# Walks along arcs

A list of arcs is acyclic if no walk along them leads from a point back to it. There are finitely
many arcs, so that one cannot go back along acyclic arcs for ever. It makes no difference whether
resolved edges are followed between ids or arcs between places.
-/

namespace TypeGraph

/-- Whether one of the arcs leads from a point to another. -/
def Leads {α : Type} (arcs : List (α × α)) (source target : α) : Prop :=
  (source, target) ∈ arcs

/-- Whether no walk of at least one arc ends where it begins. -/
def Acyclic {α : Type} (arcs : List (α × α)) : Prop :=
  ∀ point, ¬ Relation.TransGen (Leads arcs) point point

/-- Whether a walk of at least one arc leads from a point back to it. -/
def OnCycle {α : Type} (arcs : List (α × α)) (point : α) : Prop :=
  Relation.TransGen (Leads arcs) point point

/-- Whether a walk leads to a point from one on a cycle, as it does from every point on a cycle to
itself. -/
def BehindCycle {α : Type} (arcs : List (α × α)) (point : α) : Prop :=
  ∃ origin, OnCycle arcs origin ∧ Relation.ReflTransGen (Leads arcs) origin point

/-- Whether a walk leads from a point to another that may follow each arc in either direction. -/
def Joined {α : Type} (arcs : List (α × α)) : α → α → Prop :=
  Relation.ReflTransGen (Relation.SymmGen (Leads arcs))

/-- The ids that an edge leads from and to. -/
def Edge.ends (edge : Edge) : String × String :=
  (edge.source, edge.target)

/-- The ids that resolved edges lead from and to. -/
def links (nodes : List Node) (edges : List Edge) : List (String × String) :=
  (resolvedEdges nodes edges).map Edge.ends

section Walks

variable {α β : Type}

theorem mem_links_iff {nodes : List Node} {edges : List Edge} {source target : String} :
    (source, target) ∈ links nodes edges ↔
      ∃ edge ∈ resolvedEdges nodes edges, edge.source = source ∧ edge.target = target := by
  simp only [links, Edge.ends, List.mem_map, Prod.mk.injEq]

theorem joined_equivalence (arcs : List (α × α)) : Equivalence (Joined arcs) where
  refl _ := Relation.ReflTransGen.refl
  symm joined := Relation.ReflTransGen.stdSymm.symm _ _ joined
  trans first second := Relation.ReflTransGen.trans first second

theorem joined_of_edge
    {nodes : List Node} {edges : List Edge} {edge : Edge}
    (resolved : edge ∈ resolvedEdges nodes edges) :
    Joined (links nodes edges) edge.source edge.target :=
  Relation.ReflTransGen.single
    (Relation.SymmGen.of_rel (mem_links_iff.mpr ⟨edge, resolved, rfl, rfl⟩))

/-- The points at the ends of arcs. -/
def endpoints (arcs : List (α × α)) : Set α :=
  {point | point ∈ arcs.map Prod.fst ++ arcs.map Prod.snd}

theorem endpoints_finite (arcs : List (α × α)) : (endpoints arcs).Finite :=
  List.finite_toSet (arcs.map Prod.fst ++ arcs.map Prod.snd)

theorem mem_endpoints_of_leads
    {arcs : List (α × α)} {source target : α}
    (arc : Leads arcs source target) :
    source ∈ endpoints arcs ∧ target ∈ endpoints arcs := by
  constructor
  · exact List.mem_append_left _ (List.mem_map_of_mem (f := Prod.fst) arc)
  · exact List.mem_append_right _ (List.mem_map_of_mem (f := Prod.snd) arc)

/-- Acyclic arcs can be followed back only finitely often. -/
theorem Acyclic.wellFounded {arcs : List (α × α)} (acyclic : Acyclic arcs) :
    WellFounded (Leads arcs) := by
  have irreflexive : Std.Irrefl (Relation.TransGen (Leads arcs)) := ⟨acyclic⟩
  have strict : IsStrictOrder α (Relation.TransGen (Leads arcs)) := {}
  have onEndpoints : (endpoints arcs).WellFoundedOn (Relation.TransGen (Leads arcs)) :=
    (endpoints_finite arcs).wellFoundedOn
  refine Subrelation.wf ?_ (Set.wellFoundedOn_iff.mp onEndpoints)
  intro source target arc
  exact ⟨Relation.TransGen.single arc, mem_endpoints_of_leads arc⟩

/-- Arcs that can be followed only finitely often are acyclic. -/
theorem acyclic_of_wellFounded
    {arcs : List (α × α)}
    (finite : WellFounded fun target source => Leads arcs source target) :
    Acyclic arcs := by
  intro point walk
  exact finite.transGen.irrefl.irrefl point (Relation.transGen_swap.mp walk)

theorem exists_onCycle_iff {arcs : List (α × α)} :
    (∃ point, OnCycle arcs point) ↔ ¬ Acyclic arcs := by
  rw [Acyclic, not_forall_not]
  rfl

theorem OnCycle.behindCycle {arcs : List (α × α)} {point : α} (cycle : OnCycle arcs point) :
    BehindCycle arcs point :=
  ⟨point, cycle, Relation.ReflTransGen.refl⟩

theorem BehindCycle.tail
    {arcs : List (α × α)} {source target : α}
    (behind : BehindCycle arcs source)
    (arc : Leads arcs source target) :
    BehindCycle arcs target := by
  obtain ⟨origin, cycle, walk⟩ := behind
  exact ⟨origin, cycle, walk.tail arc⟩

/-- An arc leads to every point behind a cycle. -/
theorem BehindCycle.exists_leads
    {arcs : List (α × α)} {point : α}
    (behind : BehindCycle arcs point) :
    ∃ source, Leads arcs source point := by
  obtain ⟨origin, cycle, walk⟩ := behind
  obtain ⟨source, _, arc⟩ := Relation.TransGen.tail'_iff.mp (Relation.TransGen.trans_left cycle walk)
  exact ⟨source, arc⟩

/-- From a point that is not behind a cycle, arcs can be followed back only finitely often. -/
theorem acc_of_not_behindCycle
    {arcs : List (α × α)} {point : α}
    (free : ¬ BehindCycle arcs point) :
    Acc (Leads arcs) point := by
  classical
  -- The arcs into points that are not behind a cycle have no cycle of their own, and from such a
  -- point no other arcs lead back.
  let freeArcs := arcs.filter fun arc => ¬ BehindCycle arcs arc.2
  have acyclic : Acyclic freeArcs := by
    intro other walk
    obtain ⟨_, _, last⟩ := Relation.TransGen.tail'_iff.mp walk
    have otherFree : ¬ BehindCycle arcs other := of_decide_eq_true (List.mem_filter.mp last).2
    have cycle : OnCycle arcs other := walk.lift id fun _ _ arc => (List.mem_filter.mp arc).1
    exact otherFree cycle.behindCycle
  induction point using acyclic.wellFounded.induction with
  | _ point inner =>
    refine Acc.intro point fun source arc => inner source ?_ fun behind => free (behind.tail arc)
    exact List.mem_filter.mpr ⟨arc, decide_eq_true free⟩

/-- Points that stand for acyclic points are acyclic. -/
theorem Acyclic.of_map
    {arcs : List (α × α)} {images : List (β × β)}
    (acyclic : Acyclic images)
    (image : α → β)
    (maps : ∀ source target, Leads arcs source target → Leads images (image source) (image target)) :
    Acyclic arcs :=
  fun point walk => acyclic (image point) (walk.lift image maps)

theorem BehindCycle.map
    {arcs : List (α × α)} {images : List (β × β)} {point : α}
    (behind : BehindCycle arcs point)
    (image : α → β)
    (maps : ∀ source target, Leads arcs source target → Leads images (image source) (image target)) :
    BehindCycle images (image point) := by
  obtain ⟨origin, cycle, walk⟩ := behind
  exact ⟨image origin, cycle.lift image maps, walk.lift image maps⟩

theorem Acyclic.of_subset
    {arcs more : List (α × α)}
    (acyclic : Acyclic more)
    (contained : arcs ⊆ more) :
    Acyclic arcs :=
  acyclic.of_map id fun _ _ arc => contained arc

end Walks

/-! ## Ids and places -/

/-- The id at a place. -/
def idAt (nodes : List Node) (place : Nat) : String :=
  (nodes[place]?.map Node.id).getD ""

theorem idAt_of_positionOf?
    {nodes : List Node} {id : String} {place : Nat}
    (found : positionOf? nodes id = some place) :
    idAt nodes place = id := by
  obtain ⟨node, stands, rfl⟩ := exists_getElem?_of_positionOf? found
  simp [idAt, stands]

/-- The place of the first node with an id. -/
def placeOf (nodes : List Node) (id : String) : Nat :=
  (positionOf? nodes id).getD 0

theorem placeOf_of_positionOf?
    {nodes : List Node} {id : String} {place : Nat}
    (found : positionOf? nodes id = some place) :
    placeOf nodes id = place := by
  rw [placeOf, found, Option.getD_some]

section Ends

variable {nodes : List Node} {edges : List Edge}

theorem Edge.map_arc?
    {edge : Edge}
    (resolved : edge ∈ resolvedEdges nodes edges) :
    (edge.arc? nodes).map (Prod.map (idAt nodes) (idAt nodes)) = some edge.ends := by
  obtain ⟨_, sourcePresent, targetPresent⟩ := mem_resolvedEdges.mp resolved
  obtain ⟨sourcePlace, sourceFound⟩ := exists_positionOf? sourcePresent
  obtain ⟨targetPlace, targetFound⟩ := exists_positionOf? targetPresent
  rw [Edge.arc?_eq_some_iff.mpr ⟨sourceFound, targetFound⟩, Option.map_some, Prod.map,
    idAt_of_positionOf? sourceFound, idAt_of_positionOf? targetFound, Edge.ends]

/-- Arcs join the places of the ids that links join. -/
theorem map_idAt_arcs (nodes : List Node) (edges : List Edge) :
    (arcs nodes edges).map (Prod.map (idAt nodes) (idAt nodes)) = links nodes edges := by
  rw [arcs_eq_filterMap_resolvedEdges, List.map_filterMap, links, ← List.filterMap_eq_map]
  apply List.filterMap_congr
  intro edge resolved
  exact Edge.map_arc? resolved

theorem leads_links_of_arcs
    (source target : Nat)
    (arc : Leads (arcs nodes edges) source target) :
    Leads (links nodes edges) (idAt nodes source) (idAt nodes target) := by
  rw [Leads, ← map_idAt_arcs]
  exact List.mem_map_of_mem (f := Prod.map (idAt nodes) (idAt nodes)) arc

theorem leads_arcs_of_links
    (source target : String)
    (link : Leads (links nodes edges) source target) :
    Leads (arcs nodes edges) (placeOf nodes source) (placeOf nodes target) := by
  obtain ⟨edge, resolved, rfl, rfl⟩ := mem_links_iff.mp link
  obtain ⟨member, sourcePresent, targetPresent⟩ := mem_resolvedEdges.mp resolved
  obtain ⟨sourcePlace, sourceFound⟩ := exists_positionOf? sourcePresent
  obtain ⟨targetPlace, targetFound⟩ := exists_positionOf? targetPresent
  rw [placeOf_of_positionOf? sourceFound, placeOf_of_positionOf? targetFound]
  exact mem_arcs_iff.mpr ⟨edge, member, sourceFound, targetFound⟩

theorem acyclic_arcs_iff : Acyclic (arcs nodes edges) ↔ Acyclic (links nodes edges) :=
  ⟨fun acyclic => acyclic.of_map (placeOf nodes) leads_arcs_of_links,
    fun acyclic => acyclic.of_map (idAt nodes) leads_links_of_arcs⟩

/-- An id is behind a cycle if and only if its place is. -/
theorem behindCycle_arcs_iff
    {id : String} {place : Nat}
    (found : positionOf? nodes id = some place) :
    BehindCycle (arcs nodes edges) place ↔ BehindCycle (links nodes edges) id := by
  constructor
  · intro behind
    have image := behind.map (idAt nodes) leads_links_of_arcs
    rwa [idAt_of_positionOf? found] at image
  · intro behind
    have image := behind.map (placeOf nodes) leads_arcs_of_links
    rwa [placeOf_of_positionOf? found] at image

end Ends

end TypeGraph
