import TypeGraph.Proofs.Source.Literal
import TypeGraph.Source.File

/-!
# The types of a plan

What each statement of a file stands for, told from the plans and not from their text; and the proof
that the text of a statement writes just that.
-/

namespace TypeGraph

open TypeGraph.Text

namespace Source

/-! ## Trees -/

/-- The type that a type text stands for, if it is one. -/
def typeTree (text : String) : TypeExpr :=
  match TypeExpr.parse text with
  | .ok type => type
  | .error _ => default

def nameTree (text : String) : TypeExpr :=
  .string (escaped '\'' text)

def outputTree (options : Options) (source : BoundSlot) : TypeExpr :=
  .reference [options.outType] [.named source.binding, nameTree source.slot]

def endpointTree (endpoint : BoundSlot) : TypeExpr :=
  .object [.property "node" (nameTree endpoint.binding), .property "port" (nameTree endpoint.slot)]

def connectionTree (connection : Connection) : TypeExpr :=
  .object [.property "from" (endpointTree connection.source),
    .property "to" (endpointTree connection.target)]

def inputTree (options : Options) : InputSource → TypeExpr
  | .literal value => literalTree value
  | .output source => outputTree options source

def inputsTree (options : Options) (plan : NodePlan) : TypeExpr :=
  .object (plan.inputs.map fun (slot, source) =>
    .property (escaped '"' slot) (inputTree options source))

def initialValuesTree (plan : NodePlan) : TypeExpr :=
  .object (plan.literalInputs.map fun (slot, value) =>
    .property (escaped '"' slot) (literalTree value))

/-- The type of a component: its nodes in their order, its connections in theirs, and the literals of
the nodes that have any. -/
def declarationTree (options : Options) (plan : ComponentPlan) : TypeExpr :=
  .reference [options.dagType]
    [.object (plan.nodes.map fun node => .property node.binding (typeTree node.typeText)),
      .tuple (plan.connections.map connectionTree),
      .object ((plan.nodes.filter fun node => !node.literalInputs.isEmpty).map fun node =>
        .property node.binding (initialValuesTree node))]

def stepTree (options : Options) (plan : NodePlan) : TypeExpr :=
  .reference [options.execType] [typeTree plan.typeText, inputsTree options plan]

def wholeTree : List String → TypeExpr
  | [name] => .named name
  | names => .tuple (names.map .named)

/-- The names and the types of a component's statements. -/
def trees (options : Options) (plan : ComponentPlan) : List (String × TypeExpr) :=
  (plan.declaredName, declarationTree options plan)
    :: plan.steps.map (fun node => (node.binding, stepTree options node))
    ++ [(plan.resultAlias, outputTree options plan.result)]

/-- The names and the types of a file's statements. -/
def fileTrees (options : Options) (plans : List ComponentPlan) (name : String) :
    List (String × TypeExpr) :=
  plans.flatMap (trees options) ++ [(name, wholeTree (plans.map ComponentPlan.resultAlias))]

namespace Alias

/-- The text between the equals sign and the final semicolon. -/
def bodyText (statement : Alias) : String :=
  "\n".intercalate statement.body

def text (statement : Alias) : String :=
  "type " ++ statement.name ++ " = " ++ statement.bodyText ++ ";\n"

end Alias

/-- Whether a statement has a name, and its body is a type unless that is nested too deeply. -/
def Reads (statement : Alias) (expected : String × TypeExpr) : Prop :=
  statement.name = expected.1 ∧
    (TypeExpr.parse statement.bodyText = .error .tooDeep ∨
      TypeExpr.parse statement.bodyText = .ok expected.2)

end Source

/-! ## What is asked of a plan -/

/-- Whether an input can be read: its literal has no exponents, or its source has a name. -/
def InputSource.Readable : InputSource → Prop
  | .literal value => value.Plain
  | .output source => isIdentifier source.binding

structure NodePlan.Readable (plan : NodePlan) : Prop where
  named : isIdentifier plan.binding
  typed : (TypeExpr.parse plan.typeText).isOk
  sourced : ∀ input ∈ plan.inputs, input.2.Readable

structure ComponentPlan.Readable (plan : ComponentPlan) : Prop where
  nodes : ∀ node ∈ plan.nodes, node.Readable
  steps : ∀ node ∈ plan.steps, node ∈ plan.nodes
  result : isIdentifier plan.result.binding
  named : isIdentifier plan.resultAlias

def IsConstructor (name : String) : Prop :=
  isIdentifier name ∧ name ≠ "new"

structure Options.Readable (options : Options) : Prop where
  dag : IsConstructor options.dagType
  exec : IsConstructor options.execType
  out : IsConstructor options.outType
  stem : isIdentifier options.componentStem
  blank : options.indent.toList.all Scan.isSkipped

namespace Source

variable {options : Options}

/-! ## Steps and results -/

theorem writes_typeText {plan : NodePlan} (readable : plan.Readable) :
    Writes plan.typeText (typeTree plan.typeText) := by
  have typed := readable.typed
  rw [typeTree]
  cases parsed : TypeExpr.parse plan.typeText with
  | error error =>
      rw [parsed] at typed
      cases typed
  | ok type =>
      exact writes_of_parse parsed

/-- Two type arguments, the last of which is closed. -/
theorem writes_application
    {word first last : String} {firstType lastType : TypeExpr}
    (constructs : IsConstructor word)
    (writes : Writes first firstType)
    (writesLast : WritesClosed last lastType) :
    WritesClosed (word ++ "<" ++ first ++ ", " ++ last ++ ">")
      (.reference [word] [firstType, lastType]) := by
  obtain ⟨tokens, spells, spelled⟩ := writes
  obtain ⟨lastTokens, closed, spelledLast⟩ := writesLast
  have less : Closed "<" [.symbol .less] := closed_marks rfl
  have comma : Closed ", " [.symbol .comma] := closed_marks rfl
  have greater : Closed ">" [.symbol .greater] := closed_marks rfl
  have front := (spells_identifier constructs.1).append_closed less rfl
  have whole := (((front.append_spells spells).append_closed comma rfl).append closed).append
    greater
  have reference := TypeReader.spelled_reference constructs.2
    (.more (.last lastTokens)) (.cons spelled (.cons spelledLast .nil)) (List.cons_ne_nil _ _)
  refine ⟨_, whole, ?_⟩
  simpa using reference

theorem writes_outputType
    {source : BoundSlot} (readable : options.Readable) (named : isIdentifier source.binding) :
    WritesClosed (outputType options source) (outputTree options source) :=
  writes_application readable.out (writes_identifier named) (writes_singleQuoted source.slot)

theorem writes_inputType
    {source : InputSource} (readable : options.Readable) (sourced : source.Readable) :
    Writes (inputType options source) (inputTree options source) := by
  cases source with
  | literal value =>
      exact writes_literal value sourced
  | output source =>
      exact (writes_outputType readable sourced).writes

theorem writes_inputsType
    {plan : NodePlan} (readable : options.Readable) (planned : plan.Readable) :
    WritesClosed (inputsType options plan) (inputsTree options plan) := by
  refine writes_objectType ?_
  rw [List.forall₂_map_left_iff, List.forall₂_map_right_iff, List.forall₂_same]
  exact fun input member => writes_member (writes_inputType readable (planned.sourced input member))

theorem writes_step
    {plan : NodePlan} (readable : options.Readable) (planned : plan.Readable) :
    Writes (step options plan).bodyText (stepTree options plan) :=
  (writes_application readable.exec (writes_typeText planned)
    (writes_inputsType readable planned)).writes

/-! ## Declarations -/

theorem writes_labelled
    {label name text : String} {type : TypeExpr}
    (labelled : label = name ++ ": ")
    (identifier : isIdentifier name)
    (writes : Writes text type) :
    WritesMember (label ++ text) (.property name type) := by
  rw [labelled]
  exact writes_member_of_isIdentifier identifier writes

theorem writes_endpointType (endpoint : BoundSlot) :
    Writes (endpointType endpoint) (endpointTree endpoint) := by
  have node := writes_labelled (show "node: " = "node" ++ ": " by decide) (by decide)
    (writes_singleQuoted endpoint.binding).writes
  have port := writes_labelled (show "port: " = "port" ++ ": " by decide) (by decide)
    (writes_singleQuoted endpoint.slot).writes
  exact (writes_objectType (.cons node (.cons port .nil))).writes

theorem writes_connectionType (connection : Connection) :
    WritesClosed (connectionType connection) (connectionTree connection) := by
  have source := writes_labelled (show "from: " = "from" ++ ": " by decide) (by decide)
    (writes_endpointType connection.source)
  have target := writes_labelled (show "to: " = "to" ++ ": " by decide) (by decide)
    (writes_endpointType connection.target)
  exact writes_objectType (.cons source (.cons target .nil))

theorem writes_initialValuesType {plan : NodePlan} (planned : plan.Readable) :
    WritesClosed (initialValuesType plan) (initialValuesTree plan) := by
  refine writes_objectType ?_
  rw [List.forall₂_map_left_iff, List.forall₂_map_right_iff, List.forall₂_same]
  rintro ⟨slot, value⟩ member
  exact writes_member
    (writes_literal value (planned.sourced _ (NodePlan.mem_literalInputs.mp member)))

/-- Lines with the end of a line in front of each. -/
def lined (lines : List String) : String :=
  String.join (lines.map ("\n" ++ ·))

theorem lined_append (first second : List String) :
    lined (first ++ second) = lined first ++ lined second := by
  rw [lined, List.map_append, String.join_append]
  rfl

theorem intercalate_eq_lined (first : String) (rest : List String) :
    "\n".intercalate (first :: rest) = first ++ lined rest := by
  induction rest generalizing first with
  | nil =>
      rw [String.intercalate_singleton, lined, List.map_nil, String.join_nil, String.append_empty]
  | cons next rest inner =>
      rw [String.intercalate_cons_cons, inner, lined, lined, List.map_cons, String.join_cons,
        String.append_assoc, String.append_assoc]

theorem bracketed_cons (indent opening closing separator line : String) (lines : List String) :
    bracketed indent opening closing separator (line :: lines) =
      (indent ++ opening) :: (line :: lines).map (indent ++ indent ++ ·)
        ++ [indent ++ closing ++ separator] :=
  rfl

/-- A list on lines of its own: each item has its separator behind it. -/
theorem closed_bracketed
    {indent opening closing separator : String} {opens closes : Symbol} {behind : List Token}
    {kind : Symbol} {lines : List String} {items : List (List Token)}
    (blank : Closed indent [])
    (opened : Closed opening [.symbol opens])
    (closed : Closed closing [.symbol closes])
    (separated : Closed separator behind)
    (each : List.Forall₂ (fun line item => Closed line (item ++ [.symbol kind])) lines items) :
    ∃ tokens, TypeReader.Listed kind items tokens ∧
      Closed (lined (bracketed indent opening closing separator lines))
        (.symbol opens :: (tokens ++ [.symbol closes]) ++ behind) := by
  have newline : Closed "\n" [] := closed_blanks rfl
  cases each with
  | nil =>
      have line := newline.append (((blank.append opened).append closed).append separated)
      refine ⟨[], .none, ?_⟩
      rw [bracketed, lined, List.map_singleton, String.join_cons, String.join_nil,
        String.append_empty]
      exact line
  | @cons line item lines items closedLine closedLines =>
      have first := newline.append (blank.append opened)
      have last := newline.append ((blank.append closed).append separated)
      have indented : List.Forall₂ (fun line item => Closed line (item ++ [.symbol kind]))
          (((line :: lines).map (indent ++ indent ++ ·)).map ("\n" ++ ·)) (item :: items) := by
        rw [List.map_map, List.forall₂_map_left_iff]
        refine List.Forall₂.imp (fun line item closed => ?_) (.cons closedLine closedLines)
        exact newline.append ((blank.append blank).append closed)
      obtain ⟨tokens, listed, joined⟩ := closed_join indented
      refine ⟨tokens, listed, ?_⟩
      have whole := (first.append joined).append last
      rw [bracketed_cons, lined, List.map_append, String.join_append, List.map_cons,
        String.join_cons, List.map_singleton, String.join_cons, String.join_nil,
        String.append_empty]
      simpa using whole

theorem closed_ended
    {ending : String} {kind : Symbol} {texts : List String} {items : List (List Token)}
    (closed : Closed ending [.symbol kind])
    (opens : Opens ending)
    (each : List.Forall₂ Spells texts items) :
    List.Forall₂ (fun line item => Closed line (item ++ [.symbol kind])) (texts.map (· ++ ending))
      items := by
  rw [List.forall₂_map_left_iff]
  exact each.imp fun _ _ spells => spells.append_closed closed opens

/-- An object with its members on lines of their own. -/
theorem writes_members
    {separator : String} {behind : List Token} {texts : List String} {members : List Member}
    (readable : options.Readable)
    (separated : Closed separator behind)
    (each : List.Forall₂ WritesMember texts members) :
    ∃ tokens, Closed
        (lined (bracketed options.indent "\x7b" "\x7d" separator (texts.map (· ++ ";"))))
        (tokens ++ behind) ∧
      TypeReader.Spelled tokens (.object members) := by
  obtain ⟨items, spells, spelled⟩ := exists_tokens each
  have semicolon : Closed ";" [.symbol .semicolon] := closed_marks rfl
  have opening : Closed "\x7b" [.symbol .openBrace] := closed_marks rfl
  have closing : Closed "\x7d" [.symbol .closeBrace] := closed_marks rfl
  obtain ⟨tokens, listed, closed⟩ := closed_bracketed (closed_blanks readable.blank) opening closing
    separated (closed_ended semicolon rfl spells)
  exact ⟨_, closed, TypeReader.spelled_object listed spelled⟩

/-- A tuple with its elements on lines of their own. -/
theorem writes_elements
    {separator : String} {behind : List Token} {texts : List String} {types : List TypeExpr}
    (readable : options.Readable)
    (separated : Closed separator behind)
    (each : List.Forall₂ Writes texts types) :
    ∃ tokens, Closed
        (lined (bracketed options.indent "[" "]" separator (texts.map (· ++ ","))))
        (tokens ++ behind) ∧
      TypeReader.Spelled tokens (.tuple types) := by
  obtain ⟨items, spells, spelled⟩ := exists_tokens each
  have comma : Closed "," [.symbol .comma] := closed_marks rfl
  have opening : Closed "[" [.symbol .openBracket] := closed_marks rfl
  have closing : Closed "]" [.symbol .closeBracket] := closed_marks rfl
  obtain ⟨tokens, listed, closed⟩ := closed_bracketed (closed_blanks readable.blank) opening closing
    separated (closed_ended comma rfl spells)
  exact ⟨_, closed, TypeReader.spelled_tuple listed spelled⟩

theorem writes_nodeItems
    {plan : ComponentPlan} (readable : options.Readable) (planned : plan.Readable) :
    ∃ tokens, Closed
        (lined (bracketed options.indent "\x7b" "\x7d" "," (nodeItems plan)))
        (tokens ++ [.symbol .comma]) ∧
      TypeReader.Spelled tokens
        (.object (plan.nodes.map fun node => .property node.binding (typeTree node.typeText))) := by
  have comma : Closed "," [.symbol .comma] := closed_marks rfl
  have members : List.Forall₂ WritesMember
      (plan.nodes.map fun node => node.binding ++ ": " ++ node.typeText)
      (plan.nodes.map fun node => .property node.binding (typeTree node.typeText)) := by
    rw [List.forall₂_map_left_iff, List.forall₂_map_right_iff, List.forall₂_same]
    intro node member
    have readableNode := planned.nodes node member
    exact writes_member_of_isIdentifier readableNode.named (writes_typeText readableNode)
  have whole := writes_members readable comma members
  rwa [List.map_map] at whole

theorem writes_connectionItems (readable : options.Readable) (plan : ComponentPlan) :
    ∃ tokens, Closed
        (lined (bracketed options.indent "[" "]" "," (connectionItems plan)))
        (tokens ++ [.symbol .comma]) ∧
      TypeReader.Spelled tokens (.tuple (plan.connections.map connectionTree)) := by
  have comma : Closed "," [.symbol .comma] := closed_marks rfl
  have elements : List.Forall₂ Writes (plan.connections.map connectionType)
      (plan.connections.map connectionTree) := by
    rw [List.forall₂_map_left_iff, List.forall₂_map_right_iff, List.forall₂_same]
    exact fun connection _ => (writes_connectionType connection).writes
  have whole := writes_elements readable comma elements
  rwa [List.map_map] at whole

theorem writes_initialItems
    {plan : ComponentPlan} (readable : options.Readable) (planned : plan.Readable) :
    ∃ tokens, Closed
        (lined (bracketed options.indent "\x7b" "\x7d" "" (initialItems plan))) tokens ∧
      TypeReader.Spelled tokens
        (.object ((plan.nodes.filter fun node => !node.literalInputs.isEmpty).map fun node =>
          .property node.binding (initialValuesTree node))) := by
  have nothing : Closed "" [] := fun rest => .done rest
  have members : List.Forall₂ WritesMember
      ((plan.nodes.filter fun node => !node.literalInputs.isEmpty).map fun node =>
        node.binding ++ ": " ++ initialValuesType node)
      ((plan.nodes.filter fun node => !node.literalInputs.isEmpty).map fun node =>
        .property node.binding (initialValuesTree node)) := by
    rw [List.forall₂_map_left_iff, List.forall₂_map_right_iff, List.forall₂_same]
    intro node member
    have readableNode := planned.nodes node (List.mem_of_mem_filter member)
    exact writes_member_of_isIdentifier readableNode.named
      (writes_initialValuesType readableNode).writes
  obtain ⟨tokens, closed, spelled⟩ := writes_members readable nothing members
  rw [List.map_map, List.append_nil] at closed
  exact ⟨tokens, closed, spelled⟩

theorem bodyText_declaration (options : Options) (plan : ComponentPlan) :
    (declaration options plan).bodyText =
      options.dagType ++ "<"
        ++ (lined (bracketed options.indent "\x7b" "\x7d" "," (nodeItems plan))
          ++ lined (bracketed options.indent "[" "]" "," (connectionItems plan))
          ++ lined (bracketed options.indent "\x7b" "\x7d" "" (initialItems plan))
          ++ lined [">"]) := by
  rw [← lined_append, ← lined_append, ← lined_append, ← intercalate_eq_lined]
  rfl

theorem writes_declaration
    {plan : ComponentPlan} (readable : options.Readable) (planned : plan.Readable) :
    Writes (declaration options plan).bodyText (declarationTree options plan) := by
  obtain ⟨nodes, closedNodes, spelledNodes⟩ := writes_nodeItems readable planned
  obtain ⟨connections, closedConnections, spelledConnections⟩ :=
    writes_connectionItems readable plan
  obtain ⟨initials, closedInitials, spelledInitials⟩ := writes_initialItems readable planned
  have less : Closed "<" [.symbol .less] := closed_marks rfl
  have last : Closed (lined [">"]) [.symbol .greater] := closed_marks rfl
  have front := (spells_identifier readable.dag.1).append_closed less rfl
  have whole := front.append
    (((closedNodes.append closedConnections).append closedInitials).append last)
  have reference := TypeReader.spelled_reference readable.dag.2
    (.more (.more (.last initials)))
    (.cons spelledNodes (.cons spelledConnections (.cons spelledInitials .nil)))
    (List.cons_ne_nil _ _)
  rw [bodyText_declaration, declarationTree]
  refine ⟨_, whole.spells, ?_⟩
  simpa using reference

end Source

end TypeGraph
