import TypeGraph.Graph.Basic
import TypeGraph.Json.Kinds
import TypeGraph.Json.Printer
import TypeGraph.Json.Record

/-!
# Graphs in JSON

A graph is a record of nodes and edges, which may both be left out. Some fields have a second name.
A label that is absent is not written, and neither are absent handles and empty values.
-/

namespace TypeGraph

open TypeGraph.Json

namespace Node

/-- The levels of arrays and objects around a node's values: the graph, its nodes, the node and the
record of the values. -/
def valueDepth : Nat :=
  Written.greatestDepth - 4

def ofWritten? (document : Written) : Option Node := do
  match ← document.fields?
      [["id"], ["operation", "type", "nodeType"], ["label"], ["inputValues"]] with
  | [id, operation, label, inputValues] =>
    let id ← Written.required Written.string? id
    let operation ← Written.required Written.string? operation
    let label ← Written.optional none (Written.nullable Written.string?) label
    let inputValues ← Written.optional .empty (Written.namedValues? valueDepth) inputValues
    return ⟨id, operation, label, inputValues⟩
  | _ => none

def wanted {α : Type} (kinds : Kinds α) : α :=
  kinds.record "GraphNode"
    [.needed "id" kinds.string, .needed "operation" kinds.string ["type", "nodeType"],
      .spare "label" (kinds.nullable kinds.string), .spare "inputValues" (kinds.values valueDepth)]

def toJson (node : Node) : Value :=
  .object ([("id", .string node.id), ("operation", .string node.operation)]
    ++ (match node.label with
      | some label => [("label", .string label)]
      | none => [])
    ++ (if node.inputValues.isEmpty then []
      else [("inputValues", .object node.inputValues.entries)]))

end Node

namespace Edge

/-- Reads an edge whose handles have some names, two for each of them. -/
def ofNamed? (sourceNames targetNames : String × String) (document : Written) : Option Edge := do
  match ← document.fields? [["id"], ["source"], [sourceNames.1, sourceNames.2], ["target"],
      [targetNames.1, targetNames.2]] with
  | [id, source, sourceHandle, target, targetHandle] =>
    let id ← Written.optional "" Written.string? id
    let source ← Written.required Written.string? source
    let sourceHandle ← Written.optional none (Written.nullable Written.string?) sourceHandle
    let target ← Written.required Written.string? target
    let targetHandle ← Written.optional none (Written.nullable Written.string?) targetHandle
    return ⟨id, source, sourceHandle, target, targetHandle⟩
  | _ => none

def wantedNamed {α : Type} (record : String) (sourceNames targetNames : String × String)
    (kinds : Kinds α) : α :=
  kinds.record record
    [.spare "id" kinds.string, .needed "source" kinds.string,
      .spare sourceNames.1 (kinds.nullable kinds.string) [sourceNames.2],
      .needed "target" kinds.string,
      .spare targetNames.1 (kinds.nullable kinds.string) [targetNames.2]]

def ofWritten? : Written → Option Edge :=
  ofNamed? ("sourceHandle", "sourcePort") ("targetHandle", "targetPort")

def wanted {α : Type} : (kinds : Kinds α) → α :=
  wantedNamed "GraphEdge" ("sourceHandle", "sourcePort") ("targetHandle", "targetPort")

/-- A field that is written only if there is something in it. -/
def handleField (name : String) (handle : Option String) : List (String × Value) :=
  match handle with
  | some handle => [(name, .string handle)]
  | none => []

def toJson (edge : Edge) : Value :=
  .object ([("id", .string edge.id), ("source", .string edge.source)]
    ++ handleField "sourceHandle" edge.sourceHandle ++ [("target", .string edge.target)]
    ++ handleField "targetHandle" edge.targetHandle)

end Edge

/-! ## Records of nodes and edges -/

namespace Drawing

/-- Reads nodes and edges, which may both be left out, and makes one thing of them. -/
def ofWritten? {ν ε α : Type} (node : Written → Option ν) (edge : Written → Option ε)
    (make : List ν → List ε → α) (document : Written) : Option α := do
  match ← document.fields? [["nodes"], ["edges"]] with
  | [nodes, edges] =>
    let nodes ← Written.optional [] (Written.list? node) nodes
    let edges ← Written.optional [] (Written.list? edge) edges
    return make nodes edges
  | _ => none

def wanted {α : Type} (record : String) (node edge : α) (kinds : Kinds α) : α :=
  kinds.record record [.spare "nodes" (kinds.list node), .spare "edges" (kinds.list edge)]

end Drawing

namespace Graph

def ofWritten? : Written → Option Graph :=
  Drawing.ofWritten? Node.ofWritten? Edge.ofWritten? Graph.mk

def wanted {α : Type} (kinds : Kinds α) : α :=
  Drawing.wanted "Graph" (Node.wanted kinds) (Edge.wanted kinds) kinds

def read? (text : String) : Option Graph :=
  (Written.read? text).bind ofWritten?

def toJson (graph : Graph) : Value :=
  .object [("nodes", .array (graph.nodes.map Node.toJson)),
    ("edges", .array (graph.edges.map Edge.toJson))]

/-- Equality as kept by loading and saving. -/
def same (left right : Graph) : Bool :=
  left.toJson.same right.toJson

end Graph

end TypeGraph
