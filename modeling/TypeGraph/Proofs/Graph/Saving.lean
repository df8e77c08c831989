import TypeGraph.Graph.Load
import TypeGraph.Proofs.Json.Records
import TypeGraph.Proofs.Json.Texts

/-!
# Graphs loaded from their text

A graph whose values hold no real numbers and are not nested too deeply is loaded from its own text,
whether the text is read as a graph or its form is detected first. Values in a graph that was loaded
are never nested too deeply.
-/

namespace TypeGraph

open Json

theorem OrderedMap.eq_empty_of_isEmpty
    {κ α : Type} {map : OrderedMap κ α} (none : map.isEmpty = true) : map = .empty := by
  cases map with
  | mk entries distinct =>
      cases List.isEmpty_iff.mp none
      rfl

/-! ## Lists and texts in records -/

namespace Json.Written

theorem list?_ofValue
    {α : Type} {read : Written → Option α} {write : α → Value} {items : List α}
    (each : ∀ item ∈ items, read (ofValue (write item)) = some item) :
    list? read (ofValue (.array (items.map write))) = some items := by
  rw [ofValue, list?, ofItems_eq_map, List.map_map, mapM_eq_some_iff, List.forall₂_map_left_iff,
    List.forall₂_same]
  exact each

theorem exists_of_mem_list?
    {α : Type} {read : Written → Option α} {document : Written} {items : List α}
    (found : list? read document = some items) {item : α} (member : item ∈ items) :
    ∃ part, read part = some item := by
  cases document with
  | array parts =>
      have back : List.Forall₂ (fun item part => read part = some item) items parts :=
        (mapM_eq_some_iff.mp found).flip
      obtain ⟨part, _, itemRead⟩ := exists_mem_of_forall₂ back item member
      exact ⟨part, itemRead⟩
  | _ =>
      cases found

/-- A field is read from a part of the document or has its default. -/
theorem exists_of_optional
    {α : Type} {default value : α} {read : Written → Option α} {field : Option Written}
    (found : optional default read field = some value) :
    value = default ∨ ∃ part, read part = some value := by
  cases field with
  | none =>
      cases found
      exact Or.inl rfl
  | some part =>
      exact Or.inr ⟨part, found⟩

theorem exists_of_nullable
    {α : Type} {read : Written → Option α} {document : Written} {value : α}
    (found : nullable read document = some (some value)) :
    ∃ part, read part = some value := by
  cases document with
  | null =>
      cases found
  | _ =>
      obtain ⟨result, resultRead, same⟩ := Option.map_eq_some_iff.mp found
      cases same
      exact ⟨_, resultRead⟩

theorem optional_nullable_string? (text : Option String) :
    optional none (nullable string?) (text.map fun text => string (some text)) = some text := by
  cases text with
  | none | some =>
      rfl

end Json.Written

/-! ## Nodes -/

namespace Node

/-- Whether every number in the values of a node is an integer. -/
def FloatFree (node : Node) : Prop :=
  ∀ entry ∈ node.inputValues.entries, entry.2.FloatFree

/-- Whether no part of a node's values is in more than `depth` arrays and objects of a value. -/
def Nests (depth : Nat) (node : Node) : Prop :=
  ∀ entry ∈ node.inputValues.entries, entry.2.Nests depth

/-- The field that a node's values are written to. -/
def valuesField (node : Node) : Option Written :=
  if node.inputValues.isEmpty then none else some (.ofValue (.object node.inputValues.entries))

theorem fields?_toJson (node : Node) :
    (Written.ofValue node.toJson).fields?
        [["id"], ["operation", "type", "nodeType"], ["label"], ["inputValues"]] =
      some [some (.string node.id), some (.string node.operation),
        node.label.map fun label => Written.string (some label), node.valuesField] := by
  rw [toJson, valuesField]
  cases node.label with
  | none | some =>
      cases node.inputValues.isEmpty with
      | false | true =>
          rfl

theorem optional_valuesField {node : Node} (nests : node.Nests valueDepth) :
    Written.optional .empty (Written.namedValues? valueDepth) node.valuesField =
      some node.inputValues := by
  rw [valuesField]
  split
  · next none =>
    rw [OrderedMap.eq_empty_of_isEmpty none]
    rfl
  · exact Written.namedValues?_ofValue node.inputValues nests

theorem ofWritten?_toJson {node : Node} (nests : node.Nests valueDepth) :
    ofWritten? (.ofValue node.toJson) = some node := by
  simp only [ofWritten?, fields?_toJson, Option.bind_eq_bind, Option.bind_some, Written.required,
    Written.string?, Written.optional_nullable_string?, optional_valuesField nests]
  rfl

theorem floatFree_toJson {node : Node} (free : node.FloatFree) : node.toJson.FloatFree := by
  rw [toJson, Value.floatFree_object, List.forall_mem_append, List.forall_mem_append]
  refine ⟨⟨by simp, ?_⟩, ?_⟩
  · cases node.label with
    | none | some =>
        simp
  · split
    · exact List.forall_mem_nil _
    · rw [List.forall_mem_singleton]
      exact .object free

theorem nests_toJson {node : Node} {depth : Nat} (nests : node.Nests depth) :
    node.toJson.Nests (depth + 2) := by
  rw [toJson, Value.nests_object, List.forall_mem_append, List.forall_mem_append]
  refine ⟨?_, ⟨by simp, ?_⟩, ?_⟩
  · cases node.label with
    | none | some =>
        cases node.inputValues.isEmpty with
        | false | true =>
            simp
  · cases node.label with
    | none | some =>
        simp
  · split
    · exact List.forall_mem_nil _
    · rw [List.forall_mem_singleton]
      exact .object node.inputValues.distinct nests

theorem member?_data_toJson (node : Node) : node.toJson.member? "data" = none := by
  rw [toJson]
  cases node.label with
  | none | some =>
      cases node.inputValues.isEmpty with
      | false | true =>
          rfl

theorem nests_of_ofWritten?
    {document : Written} {node : Node} (found : ofWritten? document = some node) :
    node.Nests valueDepth := by
  obtain ⟨fields, _, found⟩ := Option.bind_eq_some_iff.mp found
  split at found
  · obtain ⟨id, _, found⟩ := Option.bind_eq_some_iff.mp found
    obtain ⟨operation, _, found⟩ := Option.bind_eq_some_iff.mp found
    obtain ⟨label, _, found⟩ := Option.bind_eq_some_iff.mp found
    obtain ⟨values, valuesRead, found⟩ := Option.bind_eq_some_iff.mp found
    cases found
    rcases Written.exists_of_optional valuesRead with rfl | ⟨part, read⟩
    · nofun
    · exact Written.nests_of_namedValues? read
  · cases found

end Node

/-! ## Edges -/

namespace Edge

theorem ofWritten?_toJson (edge : Edge) : ofWritten? (.ofValue edge.toJson) = some edge := by
  rcases edge with ⟨id, source, _ | sourceHandle, target, _ | targetHandle⟩
  all_goals rfl

theorem floatFree_toJson (edge : Edge) : edge.toJson.FloatFree := by
  rcases edge with ⟨id, source, _ | sourceHandle, target, _ | targetHandle⟩
  all_goals simp [toJson, handleField]

theorem nests_toJson (depth : Nat) (edge : Edge) : edge.toJson.Nests (depth + 1) := by
  rcases edge with ⟨id, source, _ | sourceHandle, target, _ | targetHandle⟩
  all_goals simp [toJson, handleField]

end Edge

/-! ## Records of nodes and edges -/

namespace Drawing

variable {ν ε α : Type} {node : Written → Option ν} {edge : Written → Option ε}
  {make : List ν → List ε → α}

/-- Nodes are read from parts of the document. -/
theorem exists_of_ofWritten?
    {document : Written} {result : α}
    (found : ofWritten? node edge make document = some result) :
    ∃ nodes edges, result = make nodes edges ∧ ∀ item ∈ nodes, ∃ part, node part = some item := by
  obtain ⟨fields, _, found⟩ := Option.bind_eq_some_iff.mp found
  split at found
  · obtain ⟨nodes, nodesRead, found⟩ := Option.bind_eq_some_iff.mp found
    obtain ⟨edges, _, found⟩ := Option.bind_eq_some_iff.mp found
    cases found
    refine ⟨nodes, edges, rfl, fun item member => ?_⟩
    rcases Written.exists_of_optional nodesRead with rfl | ⟨part, listRead⟩
    · cases member
    · exact Written.exists_of_mem_list? listRead member
  · cases found

theorem ofWritten?_object
    {nodes edges : Value} {nodeList : List ν} {edgeList : List ε}
    (nodesRead : Written.list? node (.ofValue nodes) = some nodeList)
    (edgesRead : Written.list? edge (.ofValue edges) = some edgeList) :
    ofWritten? node edge make (.ofValue (.object [("nodes", nodes), ("edges", edges)])) =
      some (make nodeList edgeList) := by
  have fields : (Written.ofValue (.object [("nodes", nodes), ("edges", edges)])).fields?
      [["nodes"], ["edges"]] = some [some (.ofValue nodes), some (.ofValue edges)] :=
    rfl
  simp only [ofWritten?, fields, Option.bind_eq_bind, Option.bind_some, Written.optional, nodesRead,
    edgesRead]
  rfl

end Drawing

/-! ## Graphs -/

namespace Graph

/-- Whether every number in the values of a graph is an integer. -/
def FloatFree (graph : Graph) : Prop :=
  ∀ node ∈ graph.nodes, node.FloatFree

/-- Whether no value in a graph has more than `depth` levels of arrays and objects. -/
def Nests (depth : Nat) (graph : Graph) : Prop :=
  ∀ node ∈ graph.nodes, node.Nests depth

theorem Nests.mono
    {graph : Graph} {depth more : Nat} (nests : graph.Nests depth) (bound : depth ≤ more) :
    graph.Nests more :=
  fun node inGraph entry inValues => (nests node inGraph entry inValues).mono bound

theorem ofWritten?_toJson {graph : Graph} (nests : graph.Nests Node.valueDepth) :
    ofWritten? (.ofValue graph.toJson) = some graph := by
  have nodes : Written.list? Node.ofWritten? (.ofValue (.array (graph.nodes.map Node.toJson))) =
      some graph.nodes :=
    Written.list?_ofValue fun node member => Node.ofWritten?_toJson (nests node member)
  have edges : Written.list? Edge.ofWritten? (.ofValue (.array (graph.edges.map Edge.toJson))) =
      some graph.edges :=
    Written.list?_ofValue fun edge _ => Edge.ofWritten?_toJson edge
  exact Drawing.ofWritten?_object nodes edges

theorem floatFree_toJson {graph : Graph} (free : graph.FloatFree) : graph.toJson.FloatFree := by
  have nodes : (Value.array (graph.nodes.map Node.toJson)).FloatFree := by
    refine .array fun item member => ?_
    obtain ⟨node, inGraph, rfl⟩ := List.mem_map.mp member
    exact Node.floatFree_toJson (free node inGraph)
  have edges : (Value.array (graph.edges.map Edge.toJson)).FloatFree := by
    refine .array fun item member => ?_
    obtain ⟨edge, _, rfl⟩ := List.mem_map.mp member
    exact edge.floatFree_toJson
  refine .object ?_
  simp [nodes, edges]

theorem nests_toJson {graph : Graph} {depth : Nat} (nests : graph.Nests depth) :
    graph.toJson.Nests (depth + 4) := by
  have nodes : (Value.array (graph.nodes.map Node.toJson)).Nests (depth + 3) := by
    refine .array fun item member => ?_
    obtain ⟨node, inGraph, rfl⟩ := List.mem_map.mp member
    exact Node.nests_toJson (nests node inGraph)
  have edges : (Value.array (graph.edges.map Edge.toJson)).Nests (depth + 3) := by
    refine .array fun item member => ?_
    obtain ⟨edge, _, rfl⟩ := List.mem_map.mp member
    exact edge.nests_toJson (depth + 1)
  refine .object (by simp) ?_
  simp [nodes, edges]

/-- No node of a graph is written with `data`, whatever its values are named. -/
theorem isCanvas_toJson (graph : Graph) : isCanvas graph.toJson = false := by
  change ((graph.nodes.map Node.toJson).any fun node => (node.member? "data").isSome) = false
  rw [List.any_eq_false]
  intro item member
  obtain ⟨node, _, rfl⟩ := List.mem_map.mp member
  rw [node.member?_data_toJson]
  exact Bool.false_ne_true

theorem nests_of_ofWritten?
    {document : Written} {graph : Graph} (found : ofWritten? document = some graph) :
    graph.Nests Node.valueDepth := by
  obtain ⟨nodes, edges, rfl, parts⟩ := Drawing.exists_of_ofWritten? found
  intro node member
  obtain ⟨part, read⟩ := parts node member
  exact Node.nests_of_ofWritten? read

end Graph

/-! ## Canvases -/

namespace CanvasNode

theorem nests_of_ofData?
    {id : String} {document : Written} {node : CanvasNode}
    (found : ofData? id document = some node) :
    node.toNode.Nests valueDepth := by
  obtain ⟨fields, _, found⟩ := Option.bind_eq_some_iff.mp found
  split at found
  · obtain ⟨operation, _, found⟩ := Option.bind_eq_some_iff.mp found
    obtain ⟨label, _, found⟩ := Option.bind_eq_some_iff.mp found
    obtain ⟨values, valuesRead, found⟩ := Option.bind_eq_some_iff.mp found
    cases found
    cases values with
    | none =>
        nofun
    | some values =>
        rcases Written.exists_of_optional valuesRead with absent | ⟨part, read⟩
        · cases absent
        · obtain ⟨part, read⟩ := Written.exists_of_nullable read
          exact Written.nests_of_namedValues? read
  · cases found

theorem nests_of_ofWritten?
    {document : Written} {node : CanvasNode} (found : ofWritten? document = some node) :
    node.toNode.Nests valueDepth := by
  obtain ⟨fields, _, found⟩ := Option.bind_eq_some_iff.mp found
  split at found
  · obtain ⟨id, _, found⟩ := Option.bind_eq_some_iff.mp found
    obtain ⟨data, _, found⟩ := Option.bind_eq_some_iff.mp found
    exact nests_of_ofData? found
  · cases found

end CanvasNode

namespace Canvas

theorem exists_of_mem_graphNodes
    {earlier : List String} {canvasNodes : List CanvasNode} {nodes : List Node}
    (found : graphNodes earlier canvasNodes = .ok nodes) {node : Node} (member : node ∈ nodes) :
    ∃ canvasNode ∈ canvasNodes, canvasNode.toNode = node := by
  induction canvasNodes generalizing earlier nodes with
  | nil =>
      cases found
      cases member
  | cons first rest inner =>
      rw [graphNodes] at found
      split at found
      · cases found
      · cases later : graphNodes (first.id :: earlier) rest with
        | error error =>
            rw [later] at found
            cases found
        | ok others =>
            rw [later] at found
            cases found
            rcases List.mem_cons.mp member with rfl | inRest
            · exact ⟨first, List.mem_cons_self, rfl⟩
            · obtain ⟨canvasNode, inCanvas, same⟩ := inner later inRest
              exact ⟨canvasNode, List.mem_cons_of_mem first inCanvas, same⟩

/-- A graph has no values that are not on its canvas. -/
theorem nests_of_toGraph
    {canvas : Canvas} {graph : Graph} {depth : Nat} (converts : canvas.toGraph = .ok graph)
    (nests : ∀ node ∈ canvas.nodes, node.toNode.Nests depth) :
    graph.Nests depth := by
  rw [toGraph] at converts
  cases converted : graphNodes [] canvas.nodes with
  | error error =>
      rw [converted] at converts
      cases converts
  | ok nodes =>
      rw [converted] at converts
      cases converts
      intro node member
      obtain ⟨canvasNode, inCanvas, rfl⟩ := exists_of_mem_graphNodes converted member
      exact nests canvasNode inCanvas

theorem nests_of_ofWritten?
    {document : Written} {canvas : Canvas} (found : ofWritten? document = some canvas) :
    ∀ node ∈ canvas.nodes, node.toNode.Nests CanvasNode.valueDepth := by
  obtain ⟨nodes, edges, rfl, parts⟩ := Drawing.exists_of_ofWritten? found
  intro node member
  obtain ⟨part, read⟩ := parts node member
  exact CanvasNode.nests_of_ofWritten? read

end Canvas

/-! ## Loading -/

namespace GraphFormat

theorem graph_load_text_toJson
    {graph : Graph} (free : graph.FloatFree) (nests : graph.Nests Node.valueDepth) :
    GraphFormat.graph.load graph.toJson.text = .ok graph := by
  rw [load, Graph.read?, Written.read?_text (Graph.floatFree_toJson free), Option.bind_some,
    Graph.ofWritten?_toJson nests]
  rfl

theorem detected_load_text_toJson
    {graph : Graph} (free : graph.FloatFree) (nests : graph.Nests Node.valueDepth) :
    detected.load graph.toJson.text = .ok graph := by
  have value : Value.read? graph.toJson.text = some graph.toJson := by
    rw [Value.read?, Written.read?_text (Graph.floatFree_toJson free), Option.bind_some,
      Written.value?_ofValue (Graph.nests_toJson nests)]
  rw [load, value]
  dsimp only
  rw [graph.isCanvas_toJson, if_neg Bool.false_ne_true, Graph.ofWritten?_toJson nests]
  rfl

theorem nests_of_graphOrMalformed
    {document : Written} {graph : Graph}
    (loaded : graphOrMalformed (Graph.ofWritten? document) = .ok graph) :
    graph.Nests Node.valueDepth := by
  cases read : Graph.ofWritten? document with
  | none =>
      rw [read] at loaded
      cases loaded
  | some found =>
      rw [read] at loaded
      cases loaded
      exact Graph.nests_of_ofWritten? read

theorem nests_of_graphOfCanvas
    {document : Written} {graph : Graph}
    (loaded : graphOfCanvas (Canvas.ofWritten? document) = .ok graph) :
    graph.Nests Node.valueDepth := by
  cases read : Canvas.ofWritten? document with
  | none =>
      rw [read] at loaded
      cases loaded
  | some canvas =>
      rw [read, graphOfCanvas] at loaded
      split at loaded
      · cases loaded
      · next _ converts =>
        cases loaded
        have nests := Canvas.nests_of_toGraph converts (Canvas.nests_of_ofWritten? read)
        exact nests.mono (by decide)

/-- Values in a graph that was loaded have at most as many levels as there is room for around them
in the text of a graph. -/
theorem nests_of_load
    {format : GraphFormat} {text : String} {graph : Graph}
    (loaded : format.load text = .ok graph) :
    graph.Nests Node.valueDepth := by
  cases format with
  | graph =>
      rw [load, Graph.read?] at loaded
      cases read : Written.read? text with
      | none =>
          rw [read] at loaded
          cases loaded
      | some document =>
          rw [read] at loaded
          exact nests_of_graphOrMalformed loaded
  | canvas =>
      rw [load, Canvas.read?] at loaded
      cases read : Written.read? text with
      | none =>
          rw [read] at loaded
          cases loaded
      | some document =>
          rw [read] at loaded
          exact nests_of_graphOfCanvas loaded
  | detected =>
      rw [load] at loaded
      split at loaded
      · cases loaded
      · split at loaded
        · exact nests_of_graphOfCanvas loaded
        · exact nests_of_graphOrMalformed loaded

/-- A graph without real numbers is loaded as it is from its own text, by either loader of graphs,
if its values have at most 123 levels of arrays and objects or if it was ever loaded before. -/
theorem load_text_toJson
    {graph : Graph} (free : graph.FloatFree)
    (shallow : graph.Nests 123 ∨ ∃ format text, GraphFormat.load format text = .ok graph) :
    GraphFormat.graph.load graph.toJson.text = .ok graph ∧
      GraphFormat.detected.load graph.toJson.text = .ok graph := by
  have nests : graph.Nests Node.valueDepth := by
    rcases shallow with bounded | ⟨format, text, loaded⟩
    · exact bounded
    · exact nests_of_load loaded
  exact ⟨graph_load_text_toJson free nests, detected_load_text_toJson free nests⟩

/-- A graph whose ids and slots have the names of fields, with empty labels and handles next to
absent ones. -/
def namesakes : Graph where
  nodes := [
    ⟨"data", "nodes", some "",
      .ofList [("nodes", .array [.object [("data", .ofInt (-1)), ("id", .null)], .array []]),
        ("data", .string "\"nodes\"")]⟩,
    ⟨"nodes", "data", none, .empty⟩]
  edges := [⟨"", "data", some "", "nodes", none⟩, ⟨"data", "nodes", none, "data", some "data"⟩]

theorem load_text_toJson_namesakes :
    GraphFormat.graph.load namesakes.toJson.text = .ok namesakes ∧
      GraphFormat.detected.load namesakes.toJson.text = .ok namesakes := by
  have free : namesakes.FloatFree := by
    simp [-Prod.forall, namesakes, Graph.FloatFree, Node.FloatFree, OrderedMap.entries_ofList,
      OrderedMap.empty]
  have nests : namesakes.Nests 123 := by
    simp [-Prod.forall, namesakes, Graph.Nests, Node.Nests, OrderedMap.entries_ofList,
      OrderedMap.empty]
  exact load_text_toJson free (Or.inl nests)

end GraphFormat

end TypeGraph
