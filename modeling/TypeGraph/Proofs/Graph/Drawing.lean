import Mathlib.Data.List.Forall2
import Mathlib.Data.List.Nodup
import Mathlib.Data.List.TakeWhile
import TypeGraph.Graph.Canvas

/-!
# Graphs on canvases

The canvases that are graphs, told apart from the run over their nodes: every node has an id of its
own and an operation. Of any other canvas the first node that breaks this is reported. The graph has
the nodes and the edges of its canvas in their order.
-/

namespace TypeGraph

/-! ## Blank texts -/

namespace Text

theorem trimChars_eq_nil_iff (text : List Char) : trimChars text = [] ↔ ∀ c ∈ text, isBlank c := by
  rw [trimChars, List.reverse_eq_nil_iff, List.dropWhile_eq_nil_iff]
  constructor
  · intro blank
    rw [← List.dropWhile_eq_nil_iff]
    by_contra nonempty
    have first := blank _ (List.mem_reverse.mpr (List.head_mem nonempty))
    rw [List.head_dropWhile_not isBlank nonempty] at first
    cases first
  · intro blank c member
    exact blank c ((List.dropWhile_suffix isBlank).subset (List.mem_reverse.mp member))

theorem allBlank_iff (text : String) : allBlank text ↔ trim text = "" := by
  rw [allBlank, List.all_eq_true, ← trimChars_eq_nil_iff, trim, String.ofList_eq_empty_iff]

end Text

/-! ## Flaws of nodes -/

namespace CanvasNode

/-- Whether a node cannot stand behind others in a graph. -/
def Flawed (earlier : List CanvasNode) (node : CanvasNode) : Prop :=
  Text.trim node.id = "" ∨ Text.trim node.operation = "" ∨ ∃ other ∈ earlier, other.id = node.id

/-- What is wrong with a node that stands behind others. An operation matters only if there is an id,
and the ids in front only if there is an operation. -/
inductive Flaw (earlier : List CanvasNode) (node : CanvasNode) : CanvasError → Prop where
  | blankId : Text.trim node.id = "" → Flaw earlier node .blankId
  | noOperation :
      Text.trim node.id ≠ "" → Text.trim node.operation = "" →
      Flaw earlier node (.noOperation node.id)
  | repeatedId :
      Text.trim node.id ≠ "" → Text.trim node.operation ≠ "" →
      (∃ other ∈ earlier, other.id = node.id) → Flaw earlier node (.repeatedId node.id)

variable {front : List CanvasNode}

theorem Flaw.flawed
    {node : CanvasNode} {error : CanvasError} (flaw : node.Flaw front error) :
    node.Flawed front := by
  cases flaw with
  | blankId blank =>
      exact Or.inl blank
  | noOperation _ blank =>
      exact Or.inr (Or.inl blank)
  | repeatedId _ _ repeated =>
      exact Or.inr (Or.inr repeated)

/-- The ids that are known are those of the nodes in front. -/
def Knows (earlier : List String) (front : List CanvasNode) : Prop :=
  ∀ id, id ∈ earlier ↔ ∃ other ∈ front, other.id = id

theorem knows_nil : Knows [] [] := by
  simp [Knows]

theorem Knows.cons
    {earlier : List String} (knows : Knows earlier front) (node : CanvasNode) :
    Knows (node.id :: earlier) (front ++ [node]) := by
  intro id
  rw [List.mem_cons, knows id]
  simp [or_and_right, exists_or, or_comm, eq_comm]

/-- A node is checked for what may be wrong with it, in the order in which it is reported. -/
theorem error?_spec (node : CanvasNode) {earlier : List String} (knows : Knows earlier front) :
    match node.error? earlier with
    | some error => node.Flaw front error
    | none => ¬ node.Flawed front := by
  have knownId := knows node.id
  by_cases noId : Text.allBlank node.id
  · rw [error?, if_pos noId]
    exact .blankId ((Text.allBlank_iff _).mp noId)
  rw [error?, if_neg noId]
  rw [Text.allBlank_iff] at noId
  by_cases noOperation : Text.allBlank node.operation
  · rw [if_pos noOperation]
    exact .noOperation noId ((Text.allBlank_iff _).mp noOperation)
  rw [if_neg noOperation]
  rw [Text.allBlank_iff] at noOperation
  by_cases repeated : node.id ∈ earlier
  · rw [if_pos repeated]
    exact .repeatedId noId noOperation (knownId.mp repeated)
  · rw [if_neg repeated]
    rw [knownId] at repeated
    rintro (blank | blank | known)
    · exact noId blank
    · exact noOperation blank
    · exact repeated known

end CanvasNode

/-! ## The first flaw -/

namespace Canvas

/-- Whether none of the nodes behind others is flawed. -/
def Sound (front nodes : List CanvasNode) : Prop :=
  ∀ before node after, nodes = before ++ node :: after → ¬ node.Flawed (front ++ before)

variable {front : List CanvasNode}

theorem sound_nil (front : List CanvasNode) : Sound front [] := by
  intro before node after split
  cases List.append_eq_nil_iff.mp split.symm with
  | intro _ impossible => cases impossible

theorem sound_cons_iff {node : CanvasNode} {rest : List CanvasNode} :
    Sound front (node :: rest) ↔ ¬ node.Flawed front ∧ Sound (front ++ [node]) rest := by
  constructor
  · intro sound
    constructor
    · have first := sound [] node rest rfl
      rwa [List.append_nil] at first
    · rintro before other after rfl
      have later := sound (node :: before) other after rfl
      rwa [List.append_cons] at later
  · rintro ⟨first, later⟩ before other after split
    cases before with
    | nil =>
        cases split
        rwa [List.append_nil]
    | cons _ before =>
        cases split
        rw [List.append_cons]
        exact later before other after rfl

/-- Whether the first flawed node behind others has a certain flaw. -/
def FirstFlaw (front nodes : List CanvasNode) (error : CanvasError) : Prop :=
  ∃ before node after, nodes = before ++ node :: after ∧ Sound front before ∧
    node.Flaw (front ++ before) error

theorem firstFlaw_cons
    {node : CanvasNode} {rest : List CanvasNode} {error : CanvasError}
    (sound : ¬ node.Flawed front) (later : FirstFlaw (front ++ [node]) rest error) :
    FirstFlaw front (node :: rest) error := by
  obtain ⟨before, other, after, rfl, soundBefore, flaw⟩ := later
  refine ⟨node :: before, other, after, rfl, sound_cons_iff.mpr ⟨sound, soundBefore⟩, ?_⟩
  rwa [List.append_cons]

/-- A run over nodes stops at the first flaw, and takes every node if there is none. -/
theorem graphNodes_spec
    (nodes : List CanvasNode)
    {earlier : List String} (knows : CanvasNode.Knows earlier front) :
    match graphNodes earlier nodes with
    | .error error => FirstFlaw front nodes error
    | .ok graphNodes => Sound front nodes ∧ graphNodes = nodes.map CanvasNode.toNode := by
  induction nodes generalizing earlier front with
  | nil =>
      exact ⟨sound_nil front, rfl⟩
  | cons node rest inner =>
      rw [graphNodes]
      have checked := node.error?_spec knows
      cases found : node.error? earlier with
      | some error =>
          rw [found] at checked
          refine ⟨[], node, rest, rfl, sound_nil front, ?_⟩
          rwa [List.append_nil]
      | none =>
          rw [found] at checked
          have later := inner (knows.cons node)
          dsimp only
          cases ran : graphNodes (node.id :: earlier) rest with
          | error error =>
              rw [ran] at later
              exact firstFlaw_cons checked later
          | ok others =>
              rw [ran] at later
              refine ⟨sound_cons_iff.mpr ⟨checked, later.1⟩, ?_⟩
              rw [later.2, List.map_cons]

theorem Sound.distinct {nodes : List CanvasNode} (sound : Sound front nodes) :
    (nodes.map CanvasNode.id).Nodup ∧
      ∀ node ∈ nodes, ∀ other ∈ front, other.id ≠ node.id := by
  induction nodes generalizing front with
  | nil =>
      exact ⟨List.nodup_nil, List.forall_mem_nil _⟩
  | cons node rest inner =>
      obtain ⟨first, later⟩ := sound_cons_iff.mp sound
      obtain ⟨distinct, apart⟩ := inner later
      rw [List.map_cons, List.nodup_cons, List.forall_mem_cons]
      refine ⟨⟨?_, distinct⟩, ?_, ?_⟩
      · intro repeated
        obtain ⟨other, member, same⟩ := List.mem_map.mp repeated
        exact apart other member node (by simp) same.symm
      · intro other member same
        exact first (Or.inr (Or.inr ⟨other, member, same⟩))
      · intro other member earlier inFront
        exact apart other member earlier (List.mem_append_left _ inFront)

end Canvas

/-! ## What is drawn -/

/-- Whether a node of a graph is a node on a canvas; if there are no values there, it has none. -/
structure CanvasNode.Draws (drawn : CanvasNode) (node : Node) : Prop where
  id : node.id = drawn.id
  operation : node.operation = drawn.operation
  label : node.label = drawn.label
  inputValues :
    drawn.inputValues = some node.inputValues ∨
      (drawn.inputValues = none ∧ node.inputValues.entries = [])

theorem CanvasNode.draws_toNode (drawn : CanvasNode) : drawn.Draws drawn.toNode where
  id := rfl
  operation := rfl
  label := rfl
  inputValues := by
    unfold toNode
    cases drawn.inputValues with
    | none =>
        exact Or.inr ⟨rfl, rfl⟩
    | some values =>
        exact Or.inl rfl

namespace Edge

/-- Whether an edge leads to a slot by its handle: the slot of that name, or the default one if there
is no handle or nothing in it. -/
inductive Selects (default : String) : Option String → String → Prop where
  | named {slot : String} : slot ≠ "" → Selects default (some slot) slot
  | absent : Selects default none default
  | empty : Selects default (some "") default

theorem selects_filter (default : String) (handle : Option String) :
    Selects default handle ((handle.filter fun slot => slot != "").getD default) := by
  cases handle with
  | none =>
      exact .absent
  | some slot =>
      by_cases nothing : slot = ""
      · subst nothing
        exact .empty
      · have kept : (some slot).filter (fun slot => slot != "") = some slot := by
          simp [Option.filter, nothing]
        rw [kept]
        exact .named nothing

/-- Whether an edge of a graph is the edge of a canvas at a place. -/
structure IsDrawn (place : Nat) (drawn edge : Edge) : Prop where
  named : drawn.id ≠ "" → edge.id = drawn.id
  unnamed : drawn.id = "" → edge.id = s!"edge_{place}"
  source : edge.source = drawn.source
  target : edge.target = drawn.target
  sourceSlot : Selects "out" drawn.sourceHandle edge.sourceSlot
  targetSlot : Selects "in" drawn.targetHandle edge.targetSlot

theorem isDrawn_graphEdge (place : Nat) (drawn : Edge) :
    IsDrawn place drawn (Canvas.graphEdge place drawn) where
  named named := if_neg named
  unnamed nothing := if_pos nothing
  source := rfl
  target := rfl
  sourceSlot := selects_filter "out" drawn.sourceHandle
  targetSlot := selects_filter "in" drawn.targetHandle

end Edge

namespace Canvas

/-- Whether a graph is what is drawn on a canvas. -/
structure Draws (canvas : Canvas) (graph : Graph) : Prop where
  distinct : (graph.nodes.map Node.id).Nodup
  notBlank : ∀ node ∈ graph.nodes, Text.trim node.id ≠ ""
  nodes : List.Forall₂ CanvasNode.Draws canvas.nodes graph.nodes
  count : graph.edges.length = canvas.edges.length
  edges : ∀ place drawn edge, canvas.edges[place]? = some drawn → graph.edges[place]? = some edge →
    Edge.IsDrawn place drawn edge

theorem draws_of_sound {canvas : Canvas} (sound : Sound [] canvas.nodes) :
    canvas.Draws ⟨canvas.nodes.map CanvasNode.toNode, canvas.edges.mapIdx graphEdge⟩ where
  distinct := by
    rw [List.map_map]
    exact sound.distinct.1
  notBlank := by
    intro node member blank
    obtain ⟨drawn, inCanvas, rfl⟩ := List.mem_map.mp member
    obtain ⟨before, after, split⟩ := List.append_of_mem inCanvas
    exact sound before drawn after split (Or.inl blank)
  nodes := List.forall₂_map_right_iff.mpr (List.forall₂_same.mpr fun drawn _ => drawn.draws_toNode)
  count := List.length_mapIdx
  edges := by
    intro place drawn edge found result
    rw [List.getElem?_mapIdx, found] at result
    cases result
    exact Edge.isDrawn_graphEdge place drawn

/-- A canvas is no graph exactly if one of its nodes has no id, no operation, or the id of a node in
front of it. The first such node is reported; without one, the graph is what is drawn. -/
theorem toGraph_exact (canvas : Canvas) :
    ((∃ error, canvas.toGraph = .error error) ↔
      ∃ before node after, canvas.nodes = before ++ node :: after ∧ node.Flawed before) ∧
    match canvas.toGraph with
    | .error error => FirstFlaw [] canvas.nodes error
    | .ok graph => canvas.Draws graph := by
  have run := graphNodes_spec canvas.nodes CanvasNode.knows_nil
  rw [toGraph]
  cases ran : graphNodes [] canvas.nodes with
  | error error =>
      rw [ran] at run
      have first := run
      obtain ⟨before, node, after, split, _, flaw⟩ := first
      exact ⟨⟨fun _ => ⟨before, node, after, split, flaw.flawed⟩, fun _ => ⟨error, rfl⟩⟩, run⟩
  | ok nodes =>
      rw [ran] at run
      obtain ⟨sound, rfl⟩ := run
      refine ⟨⟨?_, ?_⟩, draws_of_sound sound⟩
      · rintro ⟨error, impossible⟩
        cases impossible
      · rintro ⟨before, node, after, split, flawed⟩
        exact absurd flawed (sound before node after split)

example :
    toGraph ⟨[⟨"a", "Identity", none, none⟩, ⟨"a", " ", none, none⟩, ⟨"", "", none, none⟩], []⟩ =
      .error (.noOperation "a") := by
  rfl

end Canvas

end TypeGraph
