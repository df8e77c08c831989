import TypeGraph.Graph.Codec
import TypeGraph.Text.Blank

/-!
# Canvases

The document of an editor in which graphs are drawn. It keeps the operation, the label and the
values of a node apart, under `data`, next to what only the editor needs. A canvas becomes a graph
if every node has an id of its own and an operation.
-/

namespace TypeGraph

open TypeGraph.Json

/-- A node on a canvas. -/
structure CanvasNode where
  id : String
  operation : String
  label : Option String
  inputValues : Option (OrderedMap String Value)

/-- A canvas, with edges as a graph has them. -/
structure Canvas where
  nodes : List CanvasNode
  edges : List Edge

/-- Why a canvas is no graph. -/
inductive CanvasError where
  | blankId
  | noOperation (id : String)
  | repeatedId (id : String)
deriving DecidableEq, Repr

/-- The wording of an error. -/
def CanvasError.message : CanvasError → String
  | blankId => "Invalid custom data: node with an empty id"
  | noOperation id => "Invalid custom data: node '" ++ id ++ "' has no operation"
  | repeatedId id => "Invalid custom data: duplicate node id '" ++ id ++ "'"

namespace CanvasNode

/-- The levels of arrays and objects around a node's values. -/
def valueDepth : Nat :=
  Written.greatestDepth - 5

/-- The operation that a palette item stands for. -/
def operationOfWritten? (document : Written) : Option String := do
  match ← document.fields? [["id"]] with
  | [id] => Written.required Written.string? id
  | _ => none

def ofData? (id : String) (document : Written) : Option CanvasNode := do
  match ← document.fields?
      [["node_type", "nodeType"], ["label"], ["input_values", "inputValues"]] with
  | [operation, label, inputValues] =>
    let operation ← Written.required operationOfWritten? operation
    let label ← Written.optional none (Written.nullable Written.string?) label
    let inputValues ←
      Written.optional none (Written.nullable (Written.namedValues? valueDepth)) inputValues
    return ⟨id, operation, label, inputValues⟩
  | _ => none

def ofWritten? (document : Written) : Option CanvasNode := do
  match ← document.fields? [["id"], ["data"]] with
  | [id, data] =>
    let id ← Written.required Written.string? id
    Written.required (ofData? id) data
  | _ => none

def wanted {α : Type} (kinds : Kinds α) : α :=
  let operation := kinds.record "EditorNodeType" [.needed "id" kinds.string]
  let data := kinds.record "EditorNodeData"
    [.needed "node_type" operation ["nodeType"], .spare "label" (kinds.nullable kinds.string),
      .spare "input_values" (kinds.nullable (kinds.values valueDepth)) ["inputValues"]]
  kinds.record "EditorNode" [.needed "id" kinds.string, .needed "data" data]

/-- What keeps a node out of a graph that has the ids in `earlier`. -/
def error? (earlier : List String) (node : CanvasNode) : Option CanvasError :=
  if Text.allBlank node.id then some .blankId
  else if Text.allBlank node.operation then some (.noOperation node.id)
  else if node.id ∈ earlier then some (.repeatedId node.id)
  else none

/-- The node of a graph, in which absent values are no values. -/
def toNode (node : CanvasNode) : Node :=
  ⟨node.id, node.operation, node.label, node.inputValues.getD .empty⟩

end CanvasNode

namespace Canvas

def edgeOfWritten? : Written → Option Edge :=
  Edge.ofNamed? ("source_handle", "sourceHandle") ("target_handle", "targetHandle")

def wantedEdge {α : Type} : (kinds : Kinds α) → α :=
  Edge.wantedNamed "EditorEdge" ("source_handle", "sourceHandle") ("target_handle", "targetHandle")

def ofWritten? : Written → Option Canvas :=
  Drawing.ofWritten? CanvasNode.ofWritten? edgeOfWritten? Canvas.mk

def wanted {α : Type} (kinds : Kinds α) : α :=
  Drawing.wanted "EditorDocument" (CanvasNode.wanted kinds) (wantedEdge kinds) kinds

def read? (text : String) : Option Canvas :=
  (Written.read? text).bind ofWritten?

/-- The nodes of a graph that has the ids in `earlier` already. -/
def graphNodes (earlier : List String) : List CanvasNode → Except CanvasError (List Node)
  | [] => .ok []
  | node :: rest =>
    match node.error? earlier with
    | some error => .error error
    | none => (graphNodes (node.id :: earlier) rest).map (node.toNode :: ·)

/-- The edge at a place: it gets an id if it has none, and an empty handle counts as absent. -/
def graphEdge (place : Nat) (edge : Edge) : Edge :=
  { edge with
    id := if edge.id = "" then s!"edge_{place}" else edge.id
    sourceHandle := edge.sourceHandle.filter fun handle => handle != ""
    targetHandle := edge.targetHandle.filter fun handle => handle != "" }

/-- The graph on a canvas, or what is wrong with the first node that cannot be in one. -/
def toGraph (canvas : Canvas) : Except CanvasError Graph :=
  (graphNodes [] canvas.nodes).map fun nodes => ⟨nodes, canvas.edges.mapIdx graphEdge⟩

end Canvas

end TypeGraph
