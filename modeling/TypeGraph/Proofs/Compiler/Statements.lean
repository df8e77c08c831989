import TypeGraph.Proofs.Compiler.Hygiene
import TypeGraph.Proofs.Source.File

/-!
# Statements of compiled files

Every statement of a compiled file reads as what its plan says, with the default options and any
library module, whatever ids, slots and values the graph has.
-/

namespace TypeGraph

open TypeGraph.Text

theorem NameTable.KeepsOff.isIdentifier_binding
    {forbidden : List String} {table : NameTable} (keeps : table.KeepsOff forbidden) (id : String) :
    isIdentifier (table.binding id) := by
  cases bound : table.bindings.get? id with
  | none =>
      rw [NameTable.binding, bound]
      exact isIdentifier_sanitize id
  | some name =>
      rw [NameTable.binding_eq bound]
      exact keeps.identifier id name bound

theorem NameTable.KeepsOff.isIdentifier_output
    {forbidden : List String} {table : NameTable} (keeps : table.KeepsOff forbidden)
    {registry : Registry} {component : Component} {node : Node} {slot : String} {source : BoundSlot}
    (input : (slot, .output source) ∈ (component.planNode registry table node).inputs) :
    isIdentifier source.binding := by
  obtain ⟨edge, _, rfl⟩ := Component.output_mem_inputs_planNode input
  exact keeps.isIdentifier_binding edge.source

theorem NameTable.KeepsOff.isIdentifier_result
    {forbidden : List String} {table : NameTable} (keeps : table.KeepsOff forbidden)
    {component : Component} (occupied : component.nodes ≠ [])
    (registry : Registry) (options : Options) (place : Nat) :
    isIdentifier (component.plan registry options table place).result.binding := by
  have inside := Component.resultPlace_lt occupied
  rw [Component.result_plan (List.getElem?_eq_getElem inside)]
  exact keeps.isIdentifier_binding _

theorem isIdentifier_componentResultAlias
    {options : Options} (stem : isIdentifier options.componentStem) (place : Nat) :
    isIdentifier (options.componentResultAlias place) := by
  have numbered := NameTable.isIdentifier_numbered stem (place + 1)
  rw [isIdentifier] at numbered ⊢
  rw [Options.componentResultAlias, String.toList_append]
  exact isIdentifierChars_append numbered (by decide)

/-- The default options with a library module. -/
def Options.ofModule (libraryModule : String) : Options :=
  { Options.standard with libraryModule := libraryModule }

theorem readable_standard : Options.standard.Readable where
  dag := ⟨by decide, by decide⟩
  exec := ⟨by decide, by decide⟩
  out := ⟨by decide, by decide⟩
  stem := by decide
  blank := by decide

/-- The library module is written nowhere but in the import statement. -/
theorem readable_ofModule (libraryModule : String) : (Options.ofModule libraryModule).Readable :=
  ⟨readable_standard.dag, readable_standard.exec, readable_standard.out, readable_standard.stem,
    readable_standard.blank⟩

namespace Compiler

variable {compiler : Compiler} {graph : Graph} {wish : String}

/-- Whether no number in a literal of a plan is written with an exponent. -/
def PlainLiterals (plans : List ComponentPlan) : Prop :=
  ∀ plan ∈ plans, ∀ node ∈ plan.nodes, ∀ literal ∈ node.literalInputs, literal.2.Plain

theorem readable_compile
    (stem : isIdentifier compiler.options.componentStem)
    (typed : ∀ node ∈ graph.nodes, (TypeExpr.parse (compiler.typeText node.operation)).isOk)
    (plain : PlainLiterals (compiler.compile graph wish).components) :
    ∀ plan ∈ (compiler.compile graph wish).components, plan.Readable := by
  intro plan planned
  have keeps := keepsOff_names compiler graph wish
  obtain ⟨place, component, stands, rfl⟩ := mem_components_compile.mp planned
  have member := List.mem_of_getElem? stands
  constructor
  · intro nodePlan listed
    obtain ⟨node, inside, rfl⟩ := Component.mem_nodes_plan.mp listed
    constructor
    · exact keeps.isIdentifier_binding node.id
    · rw [typeText_planNode]
      exact typed node ((isPart_of_mem member).mem_nodes_iff.mp inside).1
    · rintro ⟨slot, source⟩ input
      cases source with
      | literal value =>
          exact plain _ planned _ listed (slot, value)
            (List.mem_filterMap.mpr ⟨_, input, rfl⟩)
      | output source =>
          exact keeps.isIdentifier_output input
  · exact fun node => Component.mem_nodes_of_mem_steps
  · exact keeps.isIdentifier_result (nodes_ne_nil_of_mem member) _ _ _
  · exact isIdentifier_componentResultAlias stem place

theorem source_compile (occupied : graph.nodes ≠ []) :
    (compiler.compile graph wish).source =
      String.join ((Source.filePieces compiler.options (compiler.compile graph wish).imports
        (compiler.compile graph wish).components
        (compiler.compile graph wish).resultAlias).map Source.Piece.text) := by
  have notEmpty : ¬ graph.isEmpty := fun empty => occupied (List.isEmpty_iff.mp empty)
  rw [← Source.ofLines_fileLines, compile, if_neg notEmpty]

/-- The statements of a compiled file are those that the plans tell, one for one. The body of each
is a type expression with just the expected structure, unless it is nested too deeply. -/
theorem compile_statements_read
    (registry : Registry) (libraryModule : String) (rules : List Rule) (graph : Graph)
    (wish : String)
    (occupied : graph.nodes ≠ [])
    (typed : ∀ node ∈ graph.nodes, (TypeExpr.parse
      ((Compiler.mk registry (.ofModule libraryModule) rules).typeText node.operation)).isOk)
    (plain : PlainLiterals
      ((Compiler.mk registry (.ofModule libraryModule) rules).compile graph wish).components) :
    let options := Options.ofModule libraryModule
    let compilation := (Compiler.mk registry options rules).compile graph wish
    ∃ pieces : List Source.Piece,
      compilation.source = String.join (pieces.map Source.Piece.text) ∧
      (∀ line, .remark line ∈ pieces →
        line = Source.importStatement options compilation.imports ∨ line = "" ∨
          ∃ plan ∈ compilation.components, line = Source.componentComment plan) ∧
      List.Forall₂ Source.Reads (pieces.filterMap Source.Piece.statement?)
        (Source.fileTrees options compilation.components compilation.resultAlias) := by
  intro options compilation
  have readable := readable_ofModule libraryModule
  have planned : ∀ plan ∈ compilation.components, plan.Readable :=
    readable_compile readable.stem typed plain
  refine ⟨Source.filePieces options compilation.imports compilation.components
    compilation.resultAlias, source_compile occupied, ?_, ?_⟩
  · exact fun line member => Source.remark_mem_filePieces member
  · rw [Source.statements_filePieces]
    exact Source.reads_fileAliases readable planned _

/-- Ids, slots, keys and texts with quotes in them, and a library module with one. -/
def quoting : Graph where
  nodes := [
    (Node.ofOperation "it's" "Strings.Trim").withInputValue "in"
      (.object [("a key", .array [.ofInt (-2), .null]), ("b", .string "say \"hi\"")]),
    .ofOperation "2nd" "Pick<T, 'x'>"]
  edges := [(Edge.between "e" "it's" "2nd").withSlots "o'ut" "in"]

/-- Here no statement is nested too deeply. -/
theorem compile_statements_read_quoting :
    quoting.nodes ≠ [] ∧
      (∀ node ∈ quoting.nodes, (TypeExpr.parse ((Compiler.mk .standard (.ofModule "it's")
        Rule.standard).typeText node.operation)).isOk) ∧
      PlainLiterals ((Compiler.mk .standard (.ofModule "it's") Rule.standard).compile quoting
        "").components ∧
      let options := Options.ofModule "it's"
      let compilation := (Compiler.mk .standard options Rule.standard).compile quoting ""
      (∀ statement ∈ Source.fileAliases options compilation.components compilation.resultAlias,
        (TypeExpr.parse statement.bodyText).isOk) ∧
      ∃ pieces : List Source.Piece,
        compilation.source = String.join (pieces.map Source.Piece.text) ∧
        (∀ line, .remark line ∈ pieces →
          line = Source.importStatement options compilation.imports ∨ line = "" ∨
            ∃ plan ∈ compilation.components, line = Source.componentComment plan) ∧
        List.Forall₂ Source.Reads (pieces.filterMap Source.Piece.statement?)
          (Source.fileTrees options compilation.components compilation.resultAlias) := by
  have occupied : quoting.nodes ≠ [] := List.cons_ne_nil _ _
  have typed : ∀ node ∈ quoting.nodes, (TypeExpr.parse ((Compiler.mk .standard
      (.ofModule "it's") Rule.standard).typeText node.operation)).isOk := by
    decide +kernel
  have plain : PlainLiterals ((Compiler.mk .standard (.ofModule "it's") Rule.standard).compile
      quoting "").components := by
    unfold PlainLiterals Json.Value.Plain
    decide +kernel
  refine ⟨occupied, typed, plain, ?_,
    compile_statements_read .standard "it's" Rule.standard quoting "" occupied typed plain⟩
  decide +kernel

end Compiler

end TypeGraph
