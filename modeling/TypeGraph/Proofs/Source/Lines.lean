import TypeGraph.Proofs.Source.Controls
import TypeGraph.Proofs.Source.File

/-!
# The lines of a file

A file line by line: for each line its text, and those texts in it that are written as they are
given. Names, quoted texts and literals are not among these, and so have no control character to
bring into a line.
-/

namespace TypeGraph

open TypeGraph.Text

namespace Source

/-- A line, and the texts in it that are written as they are given, in their order. -/
structure Line where
  text : String
  given : List String
deriving DecidableEq, Repr

namespace Line

/-- A line in which nothing is given. -/
def fixed (text : String) : Line :=
  ⟨text, []⟩

def indented (options : Options) (text : String) : Line :=
  ⟨options.indent ++ text, [options.indent]⟩

/-- An item of a list, with some texts given in it. -/
def item (options : Options) (text : String) (given : List String) : Line :=
  ⟨options.indent ++ options.indent ++ text, options.indent :: options.indent :: given⟩

/-- Whether all control characters of a line are those of the texts given in it, which are among
some texts. -/
structure Plain (texts : List String) (line : Line) : Prop where
  controls_eq : controls line.text = line.given.flatMap controls
  given_subset : line.given ⊆ texts

end Line

/-! ## Lines of a component -/

section Template

variable (options : Options)

/-- Items between brackets, or the brackets alone on one line. -/
def frame (opening closing separator : String) : List Line → List Line
  | [] => [.indented options (opening ++ closing ++ separator)]
  | items =>
    .indented options opening :: items ++ [.indented options (closing ++ separator)]

def nodeLine (node : NodePlan) : Line :=
  .item options (node.binding ++ ": " ++ node.typeText ++ ";") [node.typeText]

def connectionLine (connection : Connection) : Line :=
  .item options (connectionType connection ++ ",") []

/-- The literals of a node. -/
def initialLine (node : NodePlan) : Line :=
  .item options (node.binding ++ ": " ++ initialValuesType node ++ ";") []

def declarationLines (plan : ComponentPlan) : List Line :=
  ⟨"type " ++ plan.declaredName ++ " = " ++ options.dagType ++ "<",
      [options.componentStem, options.dagType]⟩
    :: frame options "\x7b" "\x7d" "," (plan.nodes.map (nodeLine options))
    ++ frame options "[" "]" "," (plan.connections.map (connectionLine options))
    ++ frame options "\x7b" "\x7d" ""
      ((plan.nodes.filter fun node => !node.literalInputs.isEmpty).map (initialLine options))
    ++ [.fixed ">;"]

/-- What is given where an input is written. -/
def inputGiven : InputSource → List String
  | .literal _ => []
  | .output _ => [options.outType]

def stepLine (node : NodePlan) : Line where
  text := "type " ++ node.binding ++ " = " ++ options.execType ++ "<" ++ node.typeText ++ ", "
    ++ inputsType options node ++ ">;"
  given := options.execType :: node.typeText :: node.inputs.flatMap fun (_, source) =>
    inputGiven options source

def resultLine (plan : ComponentPlan) : Line where
  text := "type " ++ plan.resultAlias ++ " = " ++ outputType options plan.result ++ ";"
  given := [options.componentStem, options.outType]

/-- A comment, the declaration with one line for each node, each connection and each node with
literals, a blank line, and one line for each step and for the result. -/
def componentTemplate (plan : ComponentPlan) : List Line :=
  .fixed (componentComment plan) :: declarationLines options plan
    ++ .fixed "" :: plan.steps.map (stepLine options) ++ [resultLine options plan]

/-! ## Lines of a file -/

def importLine (imports : List String) : Line :=
  ⟨importStatement options imports, options.importedTypes.eraseDups⟩

def wholeLine (plans : List ComponentPlan) (name : String) : Line where
  text := "type " ++ name ++ " = " ++ wholeType (plans.map ComponentPlan.resultAlias) ++ ";"
  given := plans.map fun _ => options.componentStem

/-- The import statement, the components with a blank line behind each, and the whole result. -/
def template (imports : List String) (plans : List ComponentPlan) (name : String) : List Line :=
  importLine options imports :: .fixed ""
    :: plans.flatMap (fun plan => componentTemplate options plan ++ [.fixed ""])
    ++ [wholeLine options plans name]

end Template

variable {options : Options}

/-! ## The lines are those of the template -/

theorem map_text_frame
    {opening closing separator : String} {items : List Line} {contents : List String}
    (same : items.map Line.text = contents.map (options.indent ++ options.indent ++ ·)) :
    (frame options opening closing separator items).map Line.text =
      bracketed options.indent opening closing separator contents := by
  cases items with
  | nil =>
      have none : contents = [] := List.map_eq_nil_iff.mp same.symm
      rw [none, frame, bracketed, List.map_singleton, Line.indented]
      simp only [String.append_assoc]
  | cons item items =>
      obtain ⟨content, rest, shape⟩ : ∃ content rest, contents = content :: rest := by
        cases contents with
        | nil => cases same
        | cons content rest => exact ⟨content, rest, rfl⟩
      rw [shape] at same ⊢
      rw [frame, bracketed, List.map_append, List.map_cons, same, List.map_singleton,
        Line.indented, Line.indented, String.append_assoc]
      · exact List.cons_ne_nil _ _
      · exact List.cons_ne_nil _ _

theorem endWith_concat (ending last : String) (lines : List String) :
    endWith ending (lines ++ [last]) = lines ++ [last ++ ending] := by
  induction lines with
  | nil =>
      rfl
  | cons line lines inner =>
      have step : endWith ending (line :: (lines ++ [last])) =
          line :: endWith ending (lines ++ [last]) := by
        cases lines <;> rfl
      rw [List.cons_append, step, inner, List.cons_append]

theorem map_text_declarationLines (options : Options) (plan : ComponentPlan) :
    (declarationLines options plan).map Line.text = (declaration options plan).lines := by
  have nodes : (frame options "\x7b" "\x7d" "," (plan.nodes.map (nodeLine options))).map Line.text =
      bracketed options.indent "\x7b" "\x7d" "," (nodeItems plan) := by
    apply map_text_frame
    rw [nodeItems, List.map_map, List.map_map]
    rfl
  have connections :
      (frame options "[" "]" "," (plan.connections.map (connectionLine options))).map Line.text =
        bracketed options.indent "[" "]" "," (connectionItems plan) := by
    apply map_text_frame
    rw [connectionItems, List.map_map, List.map_map]
    rfl
  have initials : (frame options "\x7b" "\x7d" "" ((plan.nodes.filter fun node =>
        !node.literalInputs.isEmpty).map (initialLine options))).map Line.text =
      bracketed options.indent "\x7b" "\x7d" "" (initialItems plan) := by
    apply map_text_frame
    rw [initialItems, List.map_map, List.map_map]
    rfl
  have lines : (declaration options plan).lines =
      endWith ";" (("type " ++ plan.declaredName ++ " = " ++ (options.dagType ++ "<"))
        :: bracketed options.indent "\x7b" "\x7d" "," (nodeItems plan)
        ++ bracketed options.indent "[" "]" "," (connectionItems plan)
        ++ bracketed options.indent "\x7b" "\x7d" "" (initialItems plan) ++ [">"]) :=
    rfl
  rw [lines, endWith_concat, declarationLines, List.map_append, List.map_append, List.map_append,
    List.map_cons, nodes, connections, initials, ← String.append_assoc]
  rfl

theorem lines_step (options : Options) (node : NodePlan) :
    (step options node).lines = [(stepLine options node).text] := by
  rw [step, lines_ofType, stepLine]
  simp only [String.append_assoc]
  rfl

theorem map_text_componentTemplate (options : Options) (plan : ComponentPlan) :
    (componentTemplate options plan).map Line.text = componentLines options plan := by
  have statements : (stepsAndResult options plan).flatMap Alias.lines =
      plan.steps.map (fun node => (stepLine options node).text)
        ++ [(resultLine options plan).text] := by
    rw [stepsAndResult, List.flatMap_append, List.flatMap_map, List.flatMap_singleton,
      List.map_eq_flatMap]
    simp only [lines_step]
    rfl
  rw [componentTemplate, componentLines, statements]
  simp only [List.map_append, List.map_cons, List.map_map, map_text_declarationLines]
  rw [List.append_assoc]
  rfl

/-- A file has the lines of the template, no more and no fewer. -/
theorem map_text_template
    (options : Options) (imports : List String) (plans : List ComponentPlan) (name : String) :
    (template options imports plans name).map Line.text =
      fileLines options imports plans name := by
  have components :
      (plans.flatMap fun plan => componentTemplate options plan ++ [.fixed ""]).map Line.text =
        plans.flatMap fun plan => componentLines options plan ++ [""] := by
    rw [List.map_flatMap]
    simp only [List.map_append, map_text_componentTemplate]
    rfl
  rw [template, fileLines, List.map_append, List.map_cons, List.map_cons, components]
  rfl

end Source

/-! ## What is asked of a plan -/

/-- Whether the options that are written as they are given are among some texts. -/
structure Options.Among (options : Options) (texts : List String) : Prop where
  dag : options.dagType ∈ texts
  exec : options.execType ∈ texts
  out : options.outType ∈ texts
  stem : options.componentStem ∈ texts
  indent : options.indent ∈ texts

/-- Whether all names that a plan of a node mentions are identifiers, and its type text is among
some texts. -/
structure NodePlan.Named (texts : List String) (node : NodePlan) : Prop where
  binding : isIdentifier node.binding
  typed : node.typeText ∈ texts
  sources : ∀ slot source, (slot, .output source) ∈ node.inputs → isIdentifier source.binding

/-- The same for all nodes of a plan, with the aliases of its place. -/
structure ComponentPlan.Named (options : Options) (texts : List String) (plan : ComponentPlan) :
    Prop where
  declared : plan.declaredName = options.componentAlias plan.place
  aliased : plan.resultAlias = options.componentResultAlias plan.place
  nodes : ∀ node ∈ plan.nodes, node.Named texts
  steps : ∀ node ∈ plan.steps, node.Named texts
  result : isIdentifier plan.result.binding

namespace Source

variable {options : Options} {texts : List String} {plan : ComponentPlan}

/-! ## Control characters of types -/

theorem controls_componentAlias (options : Options) (place : Nat) :
    controls (options.componentAlias place) = controls options.componentStem := by
  simp (disch := decide) only [Options.componentAlias, controls_append, controls_toString,
    controls_of_all, List.append_nil]

theorem controls_componentResultAlias (options : Options) (place : Nat) :
    controls (options.componentResultAlias place) = controls options.componentStem := by
  simp (disch := decide) only [Options.componentResultAlias, controls_append,
    controls_componentAlias, controls_of_all, List.append_nil]

theorem controls_objectType (fields : List String) :
    controls (objectType fields) = fields.flatMap controls := by
  have semicolon : controls "; " = [] := rfl
  cases fields with
  | nil =>
      rfl
  | cons field fields =>
      simp (disch := decide) only [objectType, controls_append, controls_intercalate semicolon,
        controls_of_all, List.append_nil, List.nil_append]

theorem controls_outputType {source : BoundSlot} (named : isIdentifier source.binding) :
    controls (outputType options source) = controls options.outType := by
  simp (disch := decide) only [outputType, controls_append, controls_of_isIdentifier named,
    controls_singleQuoted, controls_of_all, List.append_nil]

theorem controls_connectionType (connection : Connection) :
    controls (connectionType connection) = [] := by
  simp (disch := decide) only [connectionType, endpointType, controls_objectType, controls_append,
    controls_singleQuoted, controls_of_all, List.flatMap_cons, List.flatMap_nil, List.append_nil]

theorem controls_initialValuesType (node : NodePlan) : controls (initialValuesType node) = [] := by
  rw [initialValuesType, controls_objectType, List.flatMap_map, List.flatMap_eq_nil_iff]
  rintro ⟨slot, value⟩ _
  simp (disch := decide) only [controls_append, controls_propertyKey, controls_literal,
    controls_of_all, List.append_nil]

/-- Of its inputs a step shows only the outputs with something given. -/
theorem controls_inputsType {node : NodePlan} (named : node.Named texts) :
    controls (inputsType options node) =
      (node.inputs.flatMap fun (_, source) => inputGiven options source).flatMap controls := by
  rw [inputsType, controls_objectType, List.flatMap_map, List.flatMap_assoc]
  refine List.flatMap_congr ?_
  rintro ⟨slot, source⟩ member
  cases source with
  | literal value =>
      simp (disch := decide) only [inputType, inputGiven, controls_append, controls_propertyKey,
        controls_literal, controls_of_all, List.append_nil, List.flatMap_nil]
  | output source =>
      simp (disch := decide) only [inputType, inputGiven, controls_append, controls_propertyKey,
        controls_outputType (named.sources slot source member), controls_of_all, List.append_nil,
        List.nil_append, List.flatMap_cons, List.flatMap_nil]

/-! ## Plain lines -/

theorem plain_fixed {text : String} (clean : controls text = []) : (Line.fixed text).Plain texts where
  controls_eq := clean
  given_subset := List.nil_subset texts

variable (among : options.Among texts)

include among

theorem plain_indented {text : String} (clean : controls text = []) :
    (Line.indented options text).Plain texts where
  controls_eq := by
    simp only [Line.indented, controls_append, clean, List.flatMap_cons, List.flatMap_nil]
  given_subset := by
    rw [Line.indented, List.cons_subset]
    exact ⟨among.indent, List.nil_subset _⟩

theorem plain_item
    {text : String} {given : List String}
    (same : controls text = given.flatMap controls)
    (known : given ⊆ texts) :
    (Line.item options text given).Plain texts where
  controls_eq := by
    simp only [Line.item, controls_append, same, List.flatMap_cons, List.append_assoc]
  given_subset := by
    rw [Line.item, List.cons_subset, List.cons_subset]
    exact ⟨among.indent, among.indent, known⟩

theorem plain_frame
    {opening closing separator : String} {items : List Line}
    (opened : controls opening = [])
    (closed : controls closing = [])
    (separated : controls separator = [])
    (each : ∀ line ∈ items, line.Plain texts) :
    ∀ line ∈ frame options opening closing separator items, line.Plain texts := by
  cases items with
  | nil =>
      rw [frame, List.forall_mem_singleton]
      apply plain_indented among
      rw [controls_append, controls_append, opened, closed, separated]
      rfl
  | cons item items =>
      have last : (Line.indented options (closing ++ separator)).Plain texts := by
        apply plain_indented among
        rw [controls_append, closed, separated]
        rfl
      have listed := List.forall_mem_cons.mpr ⟨plain_indented among opened, each⟩
      exact List.forall_mem_append.mpr ⟨listed, List.forall_mem_singleton.mpr last⟩

theorem plain_nodeLine {node : NodePlan} (named : node.Named texts) :
    (nodeLine options node).Plain texts := by
  apply plain_item among
  · simp (disch := decide) only [controls_append, controls_of_isIdentifier named.binding,
      controls_of_all, List.nil_append, List.flatMap_cons, List.flatMap_nil]
  · exact List.cons_subset.mpr ⟨named.typed, List.nil_subset _⟩

theorem plain_connectionLine (connection : Connection) :
    (connectionLine options connection).Plain texts := by
  refine plain_item among ?_ (List.nil_subset _)
  simp (disch := decide) only [controls_append, controls_connectionType, controls_of_all,
    List.nil_append, List.flatMap_nil]

theorem plain_initialLine {node : NodePlan} (named : node.Named texts) :
    (initialLine options node).Plain texts := by
  refine plain_item among ?_ (List.nil_subset _)
  simp (disch := decide) only [controls_append, controls_of_isIdentifier named.binding,
    controls_initialValuesType, controls_of_all, List.nil_append, List.flatMap_nil]

theorem plain_declarationLines (named : plan.Named options texts) :
    ∀ line ∈ declarationLines options plan, line.Plain texts := by
  have first : Line.Plain texts ⟨"type " ++ plan.declaredName ++ " = " ++ options.dagType ++ "<",
      [options.componentStem, options.dagType]⟩ := by
    constructor
    · simp (disch := decide) only [controls_append, named.declared, controls_componentAlias,
        controls_of_all, List.nil_append, List.append_nil, List.flatMap_cons, List.flatMap_nil]
    · simp only [List.cons_subset, among.stem, among.dag, List.nil_subset, and_self]
  have nodes : ∀ line ∈ plan.nodes.map (nodeLine options), line.Plain texts :=
    List.forall_mem_map.mpr fun node listed => plain_nodeLine among (named.nodes node listed)
  have connections : ∀ line ∈ plan.connections.map (connectionLine options), line.Plain texts :=
    List.forall_mem_map.mpr fun connection _ => plain_connectionLine among connection
  have initials : ∀ line ∈ (plan.nodes.filter fun node =>
      !node.literalInputs.isEmpty).map (initialLine options), line.Plain texts :=
    List.forall_mem_map.mpr fun node listed =>
      plain_initialLine among (named.nodes node (List.mem_of_mem_filter listed))
  rw [declarationLines]
  simp only [List.forall_mem_append, List.forall_mem_cons]
  exact ⟨⟨⟨⟨first, plain_frame among rfl rfl rfl nodes⟩, plain_frame among rfl rfl rfl connections⟩,
    plain_frame among rfl rfl rfl initials⟩, plain_fixed rfl, List.forall_mem_nil _⟩

theorem plain_stepLine {node : NodePlan} (named : node.Named texts) :
    (stepLine options node).Plain texts where
  controls_eq := by
    simp (disch := decide) only [stepLine, controls_append, controls_of_isIdentifier named.binding,
      controls_inputsType named, controls_of_all, List.nil_append, List.append_nil,
      List.append_assoc, List.flatMap_cons]
  given_subset := by
    have inputs : (node.inputs.flatMap fun (_, source) => inputGiven options source) ⊆ texts := by
      intro text member
      obtain ⟨⟨slot, source⟩, _, given⟩ := List.mem_flatMap.mp member
      cases source with
      | literal value =>
          cases given
      | output source =>
          rw [List.mem_singleton.mp given]
          exact among.out
    exact List.cons_subset.mpr ⟨among.exec, List.cons_subset.mpr ⟨named.typed, inputs⟩⟩

theorem plain_resultLine (named : plan.Named options texts) :
    (resultLine options plan).Plain texts where
  controls_eq := by
    simp (disch := decide) only [resultLine, controls_append, named.aliased,
      controls_componentResultAlias, controls_outputType named.result, controls_of_all,
      List.nil_append, List.append_nil, List.flatMap_cons, List.flatMap_nil]
  given_subset := by
    simp only [resultLine, List.cons_subset, among.stem, among.out, List.nil_subset, and_self]

omit among in
theorem controls_componentComment (plan : ComponentPlan) :
    controls (componentComment plan) = [] := by
  have noun : controls (if plan.nodes.length = 1 then "node" else "nodes") = [] := by
    split <;> rfl
  unfold componentComment
  simp (disch := decide) only [controls_append, controls_toString, noun, controls_of_all,
    List.append_nil]

theorem plain_componentTemplate (named : plan.Named options texts) :
    ∀ line ∈ componentTemplate options plan, line.Plain texts := by
  have steps : ∀ line ∈ plan.steps.map (stepLine options), line.Plain texts :=
    List.forall_mem_map.mpr fun node listed => plain_stepLine among (named.steps node listed)
  rw [componentTemplate]
  simp only [List.forall_mem_append, List.forall_mem_cons]
  exact ⟨⟨⟨plain_fixed (controls_componentComment plan), plain_declarationLines among named⟩,
    plain_fixed rfl, steps⟩, plain_resultLine among named, List.forall_mem_nil _⟩

omit among in
theorem controls_importStatement (options : Options) (imports : List String) :
    controls (importStatement options imports) = imports.flatMap controls := by
  have comma : controls ", " = [] := rfl
  unfold importStatement
  simp (disch := decide) only [controls_append, controls_intercalate comma, controls_singleQuoted,
    controls_of_all, List.nil_append, List.append_nil]

/-- Imported names that were found in type texts are names, and bring nothing along. -/
theorem plain_importLine
    {imports discovered : List String}
    (imported : imports = options.importedTypes.eraseDups ++ discovered)
    (named : ∀ name ∈ discovered, Scan.isName name) :
    (importLine options imports).Plain texts where
  controls_eq := by
    have clean : discovered.flatMap controls = [] :=
      List.flatMap_eq_nil_iff.mpr fun name listed => controls_of_isName (named name listed)
    rw [importLine, controls_importStatement, imported, List.flatMap_append, clean,
      List.append_nil]
  given_subset := by
    intro text member
    have imported : text ∈ options.importedTypes := List.mem_eraseDups.mp member
    simp only [Options.importedTypes, List.mem_cons, List.not_mem_nil, or_false] at imported
    rcases imported with rfl | rfl | rfl
    · exact among.dag
    · exact among.exec
    · exact among.out

omit among in
theorem controls_wholeType (names : List String) :
    controls (wholeType names) = names.flatMap controls := by
  have comma : controls ", " = [] := rfl
  unfold wholeType
  split
  · rw [List.flatMap_singleton]
  · simp (disch := decide) only [controls_append, controls_intercalate comma, controls_of_all,
      List.nil_append, List.append_nil]

theorem plain_wholeLine
    {plans : List ComponentPlan} {name : String}
    (named : ∀ plan ∈ plans, plan.Named options texts)
    (identifier : isIdentifier name) :
    (wholeLine options plans name).Plain texts where
  controls_eq := by
    have stems : (plans.map ComponentPlan.resultAlias).flatMap controls =
        (plans.map fun _ => options.componentStem).flatMap controls := by
      rw [List.flatMap_map, List.flatMap_map]
      refine List.flatMap_congr fun plan planned => ?_
      rw [(named plan planned).aliased, controls_componentResultAlias]
    simp (disch := decide) only [wholeLine, controls_append, controls_of_isIdentifier identifier,
      controls_wholeType, stems, controls_of_all, List.nil_append, List.append_nil]
  given_subset := by
    intro text member
    obtain ⟨_, _, rfl⟩ := List.mem_map.mp member
    exact among.stem

/-- No line of a file has a control character that is not in a text given there. -/
theorem plain_template
    {imports discovered : List String} {plans : List ComponentPlan} {name : String}
    (imported : imports = options.importedTypes.eraseDups ++ discovered)
    (discoveredNamed : ∀ name ∈ discovered, Scan.isName name)
    (planned : ∀ plan ∈ plans, plan.Named options texts)
    (identifier : isIdentifier name) :
    ∀ line ∈ template options imports plans name, line.Plain texts := by
  have components : ∀ line ∈ plans.flatMap fun plan =>
      componentTemplate options plan ++ [.fixed ""], line.Plain texts := by
    rw [List.forall_mem_flatMap]
    intro plan listed
    rw [List.forall_mem_append, List.forall_mem_singleton]
    exact ⟨plain_componentTemplate among (planned plan listed), plain_fixed rfl⟩
  rw [template]
  simp only [List.forall_mem_append, List.forall_mem_cons]
  exact ⟨⟨plain_importLine among imported discoveredNamed, plain_fixed rfl, components⟩,
    plain_wholeLine among planned identifier, List.forall_mem_nil _⟩

end Source

end TypeGraph
