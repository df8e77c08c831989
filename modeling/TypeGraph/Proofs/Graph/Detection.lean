import TypeGraph.Graph.Load
import TypeGraph.Proofs.Json.Records
import TypeGraph.Proofs.Json.Texts

/-!
# Detection of the form of a text

A text whose form is detected is read by way of its value, while the loaders of one form read it as
it stands. Whatever both ways load is the same graph. They also fail alike on texts whose records
have no members but their fields, each given once.
-/

namespace TypeGraph

open Json Json.Written

/-! ## Readers of records -/

namespace Node

def fields : List Field :=
  [⟨["id"], anything⟩, ⟨["operation", "type", "nodeType"], anything⟩, ⟨["label"], anything⟩,
    ⟨["inputValues"], anything⟩]

theorem ofWritten?_eq_fields (document : Written) :
    ofWritten? document =
      (document.fields? (fields.map Field.names)).bind
        (thenField (required string?) fun id =>
          thenField (required string?) fun operation =>
            thenField (optional none (nullable string?)) fun label =>
              thenField (optional .empty (namedValues? valueDepth)) fun inputValues =>
                endFields ⟨id, operation, label, inputValues⟩) := by
  rw [ofWritten?]
  congr 1
  funext givens
  rcases givens with _ | ⟨id, _ | ⟨operation, _ | ⟨label, _ | ⟨inputValues, _ | _⟩⟩⟩⟩
  all_goals simp [thenField, endFields]

theorem steady_ofWritten? : SteadyPart (valueDepth + 2) (PlainRecord fields) ofWritten? := by
  rw [funext ofWritten?_eq_fields]
  exact .record (.cons (steady_string? _).required fun id =>
    .cons (steady_string? _).required fun operation =>
      .cons ((steady_string? _).nullable.optional none) fun label =>
        .cons ((steady_namedValues? _).optional .empty) fun inputValues =>
          steady_endFields _ _)

end Node

namespace Edge

/-- The fields of an edge, whose handles go by different names on canvases. -/
def fieldsNamed (sourceHandle targetHandle : List String) : List Field :=
  [⟨["id"], anything⟩, ⟨["source"], anything⟩, ⟨sourceHandle, anything⟩, ⟨["target"], anything⟩,
    ⟨targetHandle, anything⟩]

def fields : List Field :=
  fieldsNamed ["sourceHandle", "sourcePort"] ["targetHandle", "targetPort"]

def ofFields : List (Option Written) → Option Edge :=
  thenField (optional "" string?) fun id =>
    thenField (required string?) fun source =>
      thenField (optional none (nullable string?)) fun sourceHandle =>
        thenField (required string?) fun target =>
          thenField (optional none (nullable string?)) fun targetHandle =>
            endFields ⟨id, source, sourceHandle, target, targetHandle⟩

theorem ofNamed?_eq_fields (sourceNames targetNames : String × String) (document : Written) :
    ofNamed? sourceNames targetNames document =
      (document.fields? ((fieldsNamed [sourceNames.1, sourceNames.2]
        [targetNames.1, targetNames.2]).map Field.names)).bind ofFields := by
  rw [ofNamed?]
  congr 1
  funext givens
  rcases givens with
    _ | ⟨id, _ | ⟨source, _ | ⟨sourceHandle, _ | ⟨target, _ | ⟨targetHandle, _ | _⟩⟩⟩⟩⟩
  all_goals simp [ofFields, thenField, endFields]

theorem steady_ofNamed? (depth : Nat) (sourceNames targetNames : String × String) :
    SteadyPart (depth + 1)
      (PlainRecord (fieldsNamed [sourceNames.1, sourceNames.2] [targetNames.1, targetNames.2]))
      (ofNamed? sourceNames targetNames) := by
  rw [funext (ofNamed?_eq_fields sourceNames targetNames)]
  exact .record (.cons ((steady_string? _).optional "") fun _ =>
    .cons (steady_string? _).required fun _ =>
      .cons ((steady_string? _).nullable.optional none) fun _ =>
        .cons (steady_string? _).required fun _ =>
          .cons ((steady_string? _).nullable.optional none) fun _ =>
            steady_endFields _ _)

theorem steady_ofWritten? (depth : Nat) :
    SteadyPart (depth + 1) (PlainRecord fields) ofWritten? :=
  steady_ofNamed? depth ("sourceHandle", "sourcePort") ("targetHandle", "targetPort")

end Edge

namespace Drawing

variable {ν ε α : Type} {node : Written → Option ν} {edge : Written → Option ε}
  {make : List ν → List ε → α}

theorem ofWritten?_eq_fields (document : Written) :
    ofWritten? node edge make document =
      (document.fields? [["nodes"], ["edges"]]).bind
        (thenField (optional [] (list? node)) fun nodes =>
          thenField (optional [] (list? edge)) fun edges =>
            endFields (make nodes edges)) := by
  rw [ofWritten?]
  congr 1
  funext givens
  rcases givens with _ | ⟨nodes, _ | ⟨edges, _ | _⟩⟩
  all_goals simp [thenField, endFields]

theorem steady_ofWritten?
    {depth : Nat} {plainNode plainEdge : Written → Prop}
    (nodes : SteadyPart depth plainNode node) (edges : SteadyPart depth plainEdge edge) :
    SteadyPart (depth + 2)
      (PlainRecord [⟨["nodes"], PlainItems plainNode⟩, ⟨["edges"], PlainItems plainEdge⟩])
      (ofWritten? node edge make) := by
  rw [funext ofWritten?_eq_fields]
  exact .record (.cons (nodes.list?.optional []) fun _ =>
    .cons (edges.list?.optional []) fun _ =>
      steady_endFields _ _)

end Drawing

namespace Graph

def fields : List Field :=
  [⟨["nodes"], PlainItems (PlainRecord Node.fields)⟩,
    ⟨["edges"], PlainItems (PlainRecord Edge.fields)⟩]

theorem steady_ofWritten? : SteadyPart greatestDepth (PlainRecord fields) ofWritten? :=
  Drawing.steady_ofWritten? Node.steady_ofWritten? (Edge.steady_ofWritten? _)

end Graph

namespace CanvasNode

def operationFields : List Field :=
  [⟨["id"], anything⟩]

def dataFields : List Field :=
  [⟨["node_type", "nodeType"], PlainRecord operationFields⟩, ⟨["label"], anything⟩,
    ⟨["input_values", "inputValues"], anything⟩]

def fields : List Field :=
  [⟨["id"], anything⟩, ⟨["data"], PlainRecord dataFields⟩]

theorem operationOfWritten?_eq_fields (document : Written) :
    operationOfWritten? document =
      (document.fields? (operationFields.map Field.names)).bind
        (thenField (required string?) endFields) := by
  rw [operationOfWritten?]
  congr 1
  funext givens
  rcases givens with _ | ⟨id, _ | _⟩
  all_goals simp [thenField, endFields]

theorem ofData?_eq_fields (id : String) (document : Written) :
    ofData? id document =
      (document.fields? (dataFields.map Field.names)).bind
        (thenField (required operationOfWritten?) fun operation =>
          thenField (optional none (nullable string?)) fun label =>
            thenField (optional none (nullable (namedValues? valueDepth))) fun inputValues =>
              endFields ⟨id, operation, label, inputValues⟩) := by
  rw [ofData?]
  congr 1
  funext givens
  rcases givens with _ | ⟨operation, _ | ⟨label, _ | ⟨inputValues, _ | _⟩⟩⟩
  all_goals simp [thenField, endFields]

theorem ofWritten?_eq_fields (document : Written) :
    ofWritten? document =
      (document.fields? (fields.map Field.names)).bind
        (thenField (required string?) fun id =>
          thenField (required (ofData? id)) endFields) := by
  rw [ofWritten?]
  congr 1
  funext givens
  rcases givens with _ | ⟨id, _ | ⟨data, _ | _⟩⟩
  all_goals simp [thenField, endFields]

theorem steady_operationOfWritten? (depth : Nat) :
    SteadyPart (depth + 1) (PlainRecord operationFields) operationOfWritten? := by
  rw [funext operationOfWritten?_eq_fields]
  exact .record (.cons (steady_string? _).required fun id => steady_endFields _ _)

theorem steady_ofData? (id : String) :
    SteadyPart (valueDepth + 2) (PlainRecord dataFields) (ofData? id) := by
  rw [funext (ofData?_eq_fields id)]
  exact .record (.cons (steady_operationOfWritten? _).required fun operation =>
    .cons ((steady_string? _).nullable.optional none) fun label =>
      .cons ((steady_namedValues? _).nullable.optional none) fun inputValues =>
        steady_endFields _ _)

theorem steady_ofWritten? : SteadyPart (valueDepth + 3) (PlainRecord fields) ofWritten? := by
  rw [funext ofWritten?_eq_fields]
  exact .record (.cons (steady_string? _).required fun id =>
    .cons (steady_ofData? id).required fun node => steady_endFields _ _)

end CanvasNode

namespace Canvas

def edgeFields : List Field :=
  Edge.fieldsNamed ["source_handle", "sourceHandle"] ["target_handle", "targetHandle"]

def fields : List Field :=
  [⟨["nodes"], PlainItems (PlainRecord CanvasNode.fields)⟩,
    ⟨["edges"], PlainItems (PlainRecord edgeFields)⟩]

theorem steady_edgeOfWritten? (depth : Nat) :
    SteadyPart (depth + 1) (PlainRecord edgeFields) edgeOfWritten? :=
  Edge.steady_ofNamed? depth ("source_handle", "sourceHandle") ("target_handle", "targetHandle")

theorem steady_ofWritten? : SteadyPart greatestDepth (PlainRecord fields) ofWritten? :=
  Drawing.steady_ofWritten? CanvasNode.steady_ofWritten? (steady_edgeOfWritten? _)

end Canvas

/-! ## Canvases told by their documents -/

namespace Json.Written

/-- Whether a part is an object with a member under a name. -/
def hasMember (name : String) : Written → Bool
  | object members => (members.map Prod.fst).contains (some name)
  | _ => false

/-- Whether a part is an array with such an item. -/
def anyItem (holds : Written → Bool) : Written → Bool
  | array items => items.any holds
  | _ => false

/-- Whether a document has `nodes` of which one has `data`. A document in the form of an array has
no member `nodes`. -/
def carriesData : Written → Bool
  | object members => members.any fun member =>
    member.1 == some "nodes" && member.2.anyItem (hasMember "data")
  | _ => false

theorem names_of_forall₂_hasEntry
    {depth : Nat} {members : List (Option String × Written)} {entries : List (String × Value)}
    (valued : List.Forall₂ (HasEntry depth) members entries) :
    members.map Prod.fst = (entries.map Prod.fst).map some := by
  induction valued with
  | nil =>
      rfl
  | cons has _ inner =>
      rw [List.map_cons, List.map_cons, List.map_cons, has.1, inner]

theorem isSome_member?
    {depth : Nat} {part : Written} {value : Value} (name : String)
    (valued : part.HasValue depth value) :
    (value.member? name).isSome = part.hasMember name := by
  cases valued.form with
  | object each =>
      rw [Value.member?, Bool.eq_iff_iff, entryAt?_isSome_iff, ← OrderedMap.keys,
        OrderedMap.mem_keys_ofList, hasMember, List.contains_iff_mem,
        names_of_forall₂_hasEntry each, List.mem_map_of_injective fun _ _ => Option.some.inj]
  | null | bool | number | string | array =>
      rfl

theorem any_of_fieldAmong?
    {members : List (Option String × Written)} {name : String} {given : Option Written}
    (holds : Written → Bool)
    (found : fieldAmong? members [name] = some given) :
    (members.any fun member => member.1 == some name && holds member.2) = given.any holds := by
  have named : (fun member : Option String × Written =>
      (member.1.map [name].contains).getD false) = fun member => member.1 == some name := by
    funext ⟨name, part⟩
    cases name with
    | none =>
        rfl
    | some given =>
        simp [beq_eq_decide]
  rw [fieldAmong?, named] at found
  rw [← List.any_filter]
  split at found
  · next none =>
    cases found
    rw [none]
    rfl
  · next member one =>
    cases found
    rw [one, List.any_cons, List.any_nil, Bool.or_false, Option.any_some]
  · cases found

/-- Whether a document that is an object gives its nodes at most once. -/
def NodesOnce (document : Written) : Prop :=
  ∀ members, document = object members → ∃ given, fieldAmong? members ["nodes"] = some given

theorem any_hasMember
    {depth : Nat} {items : List Written} {values : List Value} (name : String)
    (valued : List.Forall₂ (HasValue depth) items values) :
    (values.any fun value => (value.member? name).isSome) = items.any (hasMember name) := by
  induction valued with
  | nil =>
      rfl
  | cons has _ inner =>
      rw [List.any_cons, List.any_cons, isSome_member? name has, inner]

/-- A document is detected as a canvas by the data in it. -/
theorem isCanvas_eq_carriesData
    {depth : Nat} {document : Written} {value : Value}
    (valued : document.HasValue depth value)
    (once : document.NodesOnce) :
    isCanvas value = document.carriesData := by
  cases valued.form with
  | @object _ members entries each =>
      obtain ⟨given, found⟩ := once members rfl
      have related := rel_entryAt? each found
      rw [carriesData, any_of_fieldAmong? _ found, isCanvas, Value.member?]
      generalize entryAt? "nodes" (OrderedMap.ofList entries).entries = nodes at related
      cases related with
      | none =>
          rfl
      | some nodesValued =>
          cases nodesValued.form with
          | array itemsValued =>
              exact any_hasMember "data" itemsValued
          | null | bool | number | string | object =>
              rfl
  | null | bool | number | string | array =>
      rfl

theorem nodesOnce_of_plainRecord
    {document : Written} {fields : List Field} {plain : Written → Prop}
    (isPlain : PlainRecord (⟨["nodes"], plain⟩ :: fields) document) :
    document.NodesOnce := by
  rintro members rfl
  obtain ⟨given, found, _⟩ := isPlain.2 _ List.mem_cons_self
  exact ⟨given, found⟩

theorem nodesOnce_of_fields?
    {document : Written} {names : List (List String)} {givens : List (Option Written)}
    (found : document.fields? (["nodes"] :: names) = some givens) :
    document.NodesOnce := by
  rintro members rfl
  rw [fields?] at found
  split at found
  · rw [List.mapM_cons] at found
    obtain ⟨given, first, _⟩ := Option.bind_eq_some_iff.mp found
    exact ⟨given, first⟩
  · cases found

theorem nodesOnce_of_drawing
    {ν ε α : Type} {node : Written → Option ν} {edge : Written → Option ε}
    {make : List ν → List ε → α} {document : Written} {result : α}
    (found : Drawing.ofWritten? node edge make document = some result) :
    document.NodesOnce := by
  obtain ⟨givens, fieldsFound, _⟩ := Option.bind_eq_some_iff.mp found
  exact nodesOnce_of_fields? fieldsFound

end Json.Written

/-! ## Loading -/

/-- Whether a text has `nodes` of which one has `data`. -/
def CarriesData (text : String) : Prop :=
  ∃ document, Written.read? text = some document ∧ document.carriesData

/-- Whether the records that a text spells have only fields, each given once. -/
def PlainText (fields : List Field) (text : String) : Prop :=
  ∀ document, Written.read? text = some document → PlainRecord fields document

theorem carriesData_iff
    {text : String} {document : Written}
    (spelled : Written.read? text = some document) :
    CarriesData text ↔ document.carriesData := by
  constructor
  · rintro ⟨found, foundSpelled, carries⟩
    rw [spelled, Option.some.injEq] at foundSpelled
    exact foundSpelled ▸ carries
  · intro carries
    exact ⟨document, spelled, carries⟩

theorem plainText_iff
    {text : String} {document : Written}
    (fields : List Field)
    (spelled : Written.read? text = some document) :
    PlainText fields text ↔ PlainRecord fields document := by
  rw [PlainText, spelled]
  constructor
  · intro isPlain
    exact isPlain document rfl
  · rintro isPlain _ ⟨⟩
    exact isPlain

namespace GraphFormat

/-- Whether detection agrees with the loader of a format on a text. -/
structure DetectsAs (format : GraphFormat) (isPlain : Prop) (text : String) : Prop where
  same : ∀ {graph other},
    format.load text = .ok graph → detected.load text = .ok other → graph = other
  /-- Failures agree too. -/
  alike : isPlain → detected.load text = format.load text

section

variable {text : String} {document : Written}

theorem detected_load_of_value
    {value : Value}
    (spelled : Written.read? text = some document)
    (valued : document.HasValue greatestDepth value) :
    detected.load text =
      if isCanvas value then graphOfCanvas (Canvas.ofWritten? (.ofValue value))
      else graphOrMalformed (Graph.ofWritten? (.ofValue value)) := by
  have read : Value.read? text = some value := by
    rw [Value.read?, spelled, Option.bind_some]
    exact valued
  rw [load, read]

theorem detected_load_of_no_value
    (spelled : Written.read? text = some document)
    (absent : ∀ value, ¬ document.HasValue greatestDepth value) :
    detected.load text = .error .malformed := by
  have read : Value.read? text = none := by
    rw [Value.read?, spelled, Option.bind_some]
    exact Option.eq_none_iff_forall_ne_some.mpr absent
  rw [load, read]

/-- Detection agrees with a loader whose reader is steady where it takes the loader's way. -/
theorem detectsAs_of_steady
    {α : Type} {read : Written → Option α} {finish : Option α → Except GraphError Graph}
    {plain : Written → Prop} {format : GraphFormat}
    (steady : SteadyPart greatestDepth plain read)
    (fails : finish none = .error .malformed)
    (spelled : Written.read? text = some document)
    (loads : format.load text = finish (read document))
    (onceRead : ∀ result, read document = some result → document.NodesOnce)
    (oncePlain : plain document → document.NodesOnce)
    (detects : ∀ value, document.HasValue greatestDepth value → document.NodesOnce →
      detected.load text = finish (read (ofValue value))) :
    format.DetectsAs (plain document) text where
  same := by
    intro graph other loaded detectedOther
    rw [loads] at loaded
    cases found : read document with
    | none =>
        rw [found, fails] at loaded
        cases loaded
    | some result =>
        by_cases valued : ∃ value, document.HasValue greatestDepth value
        · obtain ⟨value, valued⟩ := valued
          rw [detects value valued (onceRead result found), steady.kept valued found, ← found,
            loaded] at detectedOther
          exact Except.ok.inj detectedOther
        · rw [detected_load_of_no_value spelled (not_exists.mp valued)] at detectedOther
          cases detectedOther
  alike := by
    intro isPlain
    by_cases valued : ∃ value, document.HasValue greatestDepth value
    · obtain ⟨value, valued⟩ := valued
      rw [detects value valued (oncePlain isPlain), steady.same isPlain valued, loads]
    · have absent : read document = none := by
        cases found : read document with
        | none =>
            rfl
        | some result =>
            exact absurd (steady.total isPlain found) valued
      rw [detected_load_of_no_value spelled (not_exists.mp valued), loads, absent, fails]

/-- On a text that is no document both ways fail. -/
theorem detectsAs_of_unspelled
    {format : GraphFormat} {isPlain : Prop}
    (unspelled : Written.read? text = none)
    (fails : format.load text = .error .malformed) :
    format.DetectsAs isPlain text where
  same := by
    intro graph other loaded _
    rw [fails] at loaded
    cases loaded
  alike := by
    intro _
    rw [load, Value.read?, unspelled, fails]
    rfl

theorem graph_detectsAs
    (spelled : Written.read? text = some document)
    (dataFree : ¬ document.carriesData) :
    GraphFormat.graph.DetectsAs (PlainText Graph.fields text) text := by
  rw [plainText_iff Graph.fields spelled]
  have fails : graphOrMalformed none = .error .malformed := rfl
  apply detectsAs_of_steady Graph.steady_ofWritten? fails spelled
  · rw [load, Graph.read?, spelled, Option.bind_some]
  · exact fun _ => nodesOnce_of_drawing
  · exact nodesOnce_of_plainRecord
  · intro value valued once
    rw [detected_load_of_value spelled valued, isCanvas_eq_carriesData valued once,
      if_neg dataFree]

theorem canvas_detectsAs
    (spelled : Written.read? text = some document)
    (carries : document.carriesData) :
    GraphFormat.canvas.DetectsAs (PlainText Canvas.fields text) text := by
  rw [plainText_iff Canvas.fields spelled]
  have fails : graphOfCanvas none = .error .malformed := rfl
  apply detectsAs_of_steady Canvas.steady_ofWritten? fails spelled
  · rw [load, Canvas.read?, spelled, Option.bind_some]
  · exact fun _ => nodesOnce_of_drawing
  · exact nodesOnce_of_plainRecord
  · intro value valued once
    rw [detected_load_of_value spelled valued, isCanvas_eq_carriesData valued once,
      if_pos carries]

end

/-- A text is loaded by detection as it is loaded as a canvas if one of its nodes has `data`, and
otherwise as it is loaded as a graph. -/
theorem load_detected_agrees (text : String) :
    (¬ CarriesData text → GraphFormat.graph.DetectsAs (PlainText Graph.fields text) text) ∧
      (CarriesData text → GraphFormat.canvas.DetectsAs (PlainText Canvas.fields text) text) := by
  cases spelled : Written.read? text with
  | none =>
      constructor
      · intro _
        apply detectsAs_of_unspelled spelled
        rw [load, Graph.read?, spelled]
        rfl
      · rintro ⟨document, found, _⟩
        rw [spelled] at found
        cases found
  | some document =>
      rw [carriesData_iff spelled]
      exact ⟨graph_detectsAs spelled, canvas_detectsAs spelled⟩

/-- A canvas with a node in the form of an array next to one in the form of an object. -/
def drawn : Value :=
  .object [
    ("edges", .array [.object [("source", .string "n1"), ("target_handle", .string ""),
      ("target", .string "n2")]]),
    ("nodes", .array [
      .array [.string "n1", .array [.array [.string "Strings.Trim"], .null]],
      .object [("data", .object [("nodeType", .object [("id", .string "Strings.Trim")]),
        ("inputValues", .object [("in", .object [("in", .null), ("in", .string "in")])])]),
        ("id", .string "n2")]])]

/-- A graph with members that are no fields, one of them twice. -/
def noted : Value :=
  .object [("data", .array [.object [("data", .null)]]), ("data", .null),
    ("nodes", .array [.object [("id", .string "n1"), ("note", .null), ("note", .array []),
      ("type", .string "Strings.Trim")]])]

theorem read?_drawn : Written.read? drawn.text = some (ofValue drawn) :=
  Written.read?_text (by simp [drawn])

theorem plainText_drawn : PlainText Canvas.fields drawn.text := by
  rw [plainText_iff Canvas.fields read?_drawn]
  simp [-Prod.forall, drawn, ofValue, ofItems, ofMembers, PlainRecord, PlainItems, PlainField,
    fieldAmong?, Canvas.fields, Canvas.edgeFields, Edge.fieldsNamed, CanvasNode.fields,
    CanvasNode.dataFields, CanvasNode.operationFields, anything]

theorem read?_noted : Written.read? noted.text = some (ofValue noted) :=
  Written.read?_text (by simp [noted])

theorem load_detected_agrees_drawn :
    (∃ graph, GraphFormat.canvas.load drawn.text = .ok graph ∧
      detected.load drawn.text = .ok graph) ∧
    ∃ graph, GraphFormat.graph.load noted.text = .ok graph ∧
      detected.load noted.text = .ok graph := by
  constructor
  · have carries : CarriesData drawn.text := (carriesData_iff read?_drawn).mpr (by decide)
    have loaded : ∃ graph, GraphFormat.canvas.load drawn.text = .ok graph := by
      rw [load, Canvas.read?, read?_drawn]
      exact ⟨_, rfl⟩
    obtain ⟨graph, loaded⟩ := loaded
    refine ⟨graph, loaded, ?_⟩
    rw [((load_detected_agrees drawn.text).2 carries).alike plainText_drawn, loaded]
  · have dataFree : ¬ CarriesData noted.text := by
      rw [carriesData_iff read?_noted]
      decide
    have loaded : ∃ graph, GraphFormat.graph.load noted.text = .ok graph := by
      rw [load, Graph.read?, read?_noted]
      exact ⟨_, rfl⟩
    have detectedOther : ∃ other, detected.load noted.text = .ok other := by
      rw [load, Value.read?, read?_noted]
      exact ⟨_, rfl⟩
    obtain ⟨graph, loaded⟩ := loaded
    obtain ⟨other, detectedOther⟩ := detectedOther
    have same := ((load_detected_agrees noted.text).1 dataFree).same loaded detectedOther
    exact ⟨graph, loaded, same ▸ detectedOther⟩

end GraphFormat

end TypeGraph
