import TypeGraph.Proofs.Compiler.Imports
import TypeGraph.Proofs.Compiler.Statements
import TypeGraph.Proofs.Source.Lines
import TypeGraph.Proofs.TypeExpr.Names

/-!
# Lines of compiled files

No text of a graph breaks a line of a compiled file. Ids, labels, slots, strings, keys, the library
module and the name wished for have no control character to bring into it; the names of the options
and the type texts of the nodes are written as they are given.
-/

namespace TypeGraph

open TypeGraph.Text

/-- Whether a text has no end of a line in it. -/
def Text.OnOneLine (text : String) : Prop :=
  '\n' ∉ text.toList ∧ '\r' ∉ text.toList

instance (text : String) : Decidable (OnOneLine text) :=
  inferInstanceAs (Decidable (_ ∧ _))

theorem Text.onOneLine_iff {text : String} :
    OnOneLine text ↔ '\n' ∉ controls text ∧ '\r' ∉ controls text := by
  have feed : ('\n').toNat < 0x20 := by decide
  have carriage : ('\r').toNat < 0x20 := by decide
  rw [OnOneLine, mem_controls, mem_controls, and_iff_left feed, and_iff_left carriage]

theorem Source.toList_ofLines (lines : List String) :
    (ofLines lines).toList = ['\n'].intercalate (lines.map String.toList ++ [[]]) := by
  induction lines with
  | nil =>
      rfl
  | cons line lines inner =>
      rw [ofLines_cons, String.toList_append, String.toList_append, inner, List.map_cons,
        List.cons_append]
      obtain ⟨next, rest, shape⟩ := List.exists_cons_of_ne_nil
        (List.append_ne_nil_of_right_ne_nil (lines.map String.toList) (List.cons_ne_nil [] []))
      rw [shape]
      simp [List.intercalate]

/-- Lines that are not broken can be told apart in their text. -/
theorem Source.splitOn_ofLines {lines : List String} (whole : ∀ line ∈ lines, OnOneLine line) :
    (ofLines lines).toList.splitOn '\n' = lines.map String.toList ++ [[]] := by
  have clean : ∀ line ∈ lines.map String.toList ++ [[]], '\n' ∉ line := by
    rw [List.forall_mem_append, List.forall_mem_map, List.forall_mem_singleton]
    exact ⟨fun line listed => (whole line listed).1, List.not_mem_nil⟩
  rw [toList_ofLines, List.splitOn_intercalate _ clean]
  exact List.append_ne_nil_of_right_ne_nil _ (List.cons_ne_nil _ _)

theorem Source.Line.Plain.onOneLine
    {texts : List String} {line : Line}
    (plain : line.Plain texts)
    (whole : ∀ text ∈ texts, OnOneLine text) :
    OnOneLine line.text := by
  have clean : ∀ text ∈ line.given, '\n' ∉ controls text ∧ '\r' ∉ controls text :=
    fun text given => onOneLine_iff.mp (whole text (plain.given_subset given))
  rw [onOneLine_iff, plain.controls_eq, List.mem_flatMap, List.mem_flatMap]
  exact ⟨fun ⟨text, given, member⟩ => (clean text given).1 member,
    fun ⟨text, given, member⟩ => (clean text given).2 member⟩

/-- The options that are written as they are given. -/
def Options.written (options : Options) : List String :=
  [options.dagType, options.execType, options.outType, options.componentStem, options.indent]

namespace Compiler

variable {compiler : Compiler} {graph : Graph} {wish : String}

/-- All texts that are written as they are given in a file for the nodes: options and type texts. -/
def writtenTexts (compiler : Compiler) (nodes : List Node) : List String :=
  compiler.options.written ++ nodes.map fun node => compiler.typeText node.operation

theorem among_writtenTexts (compiler : Compiler) (nodes : List Node) :
    compiler.options.Among (compiler.writtenTexts nodes) := by
  have written : ∀ text ∈ compiler.options.written, text ∈ compiler.writtenTexts nodes :=
    fun text => List.mem_append_left _
  simp only [Options.written, List.forall_mem_cons] at written
  obtain ⟨dag, exec, out, stem, indent, _⟩ := written
  exact ⟨dag, exec, out, stem, indent⟩

theorem isName_of_needs {operation name : String} (needs : compiler.Needs operation name) :
    Scan.isName name := by
  obtain ⟨type, parsed, ⟨single, _⟩ | ⟨second, rest, longer⟩⟩ := needs
  · exact TypeExpr.names_of_parse parsed [] _ single name List.mem_cons_self
  · exact TypeExpr.names_of_parse parsed [] _ longer name List.mem_cons_self

theorem named_compile :
    ∀ plan ∈ (compiler.compile graph wish).components,
      plan.Named compiler.options (compiler.writtenTexts graph.nodes) := by
  intro plan planned
  have keeps := keepsOff_names compiler graph wish
  obtain ⟨place, component, stands, rfl⟩ := mem_components_compile.mp planned
  have member := List.mem_of_getElem? stands
  have nodes : ∀ nodePlan ∈ (component.plan compiler.registry compiler.options
      (compiler.names graph wish) place).nodes,
      nodePlan.Named (compiler.writtenTexts graph.nodes) := by
    intro nodePlan listed
    obtain ⟨node, inside, rfl⟩ := Component.mem_nodes_plan.mp listed
    constructor
    · exact keeps.isIdentifier_binding node.id
    · rw [typeText_planNode]
      have present := ((isPart_of_mem member).mem_nodes_iff.mp inside).1
      exact List.mem_append_right _ (List.mem_map_of_mem present)
    · exact fun slot source => keeps.isIdentifier_output
  constructor
  · rfl
  · rfl
  · exact nodes
  · exact fun node step => nodes node (Component.mem_nodes_of_mem_steps step)
  · exact keeps.isIdentifier_result (nodes_ne_nil_of_mem member) _ _ _

/-- The lines of a compiled file. -/
def template (compiler : Compiler) (graph : Graph) (wish : String) : List Source.Line :=
  let compilation := compiler.compile graph wish
  Source.template compiler.options compilation.imports compilation.components
    compilation.resultAlias

theorem plain_compile
    (compiler : Compiler) (wish : String)
    {graph : Graph} (occupied : graph.nodes ≠ []) :
    ∀ line ∈ compiler.template graph wish, line.Plain (compiler.writtenTexts graph.nodes) := by
  obtain ⟨discovered, imported, _, found⟩ := (requires_imports compiler graph.nodes).exact
  have imports : (compiler.compile graph wish).imports =
      compiler.options.importedTypes.eraseDups ++ discovered := by
    rw [← imported]
    exact (compile_of_occupied occupied).1
  have identifier : isIdentifier (compiler.compile graph wish).resultAlias := by
    rw [resultAlias_compile occupied]
    exact isIdentifier_resultName compiler graph wish
  refine Source.plain_template (among_writtenTexts compiler graph.nodes) imports ?_ named_compile
    identifier
  intro name member
  obtain ⟨_, node, _, needs⟩ := (found name).mp member
  exact isName_of_needs needs

theorem source_eq_ofLines (occupied : graph.nodes ≠ []) :
    (compiler.compile graph wish).source =
      Source.ofLines ((compiler.template graph wish).map Source.Line.text) := by
  rw [source_compile occupied, ← Source.ofLines_fileLines, ← Source.map_text_template, template]

/-- Where no written option and no type text has the end of a line in it, the text of a compiled
file is just the lines of its template. In each line the control characters are those of the texts
given there, each of which is an option or the type text of a node. -/
theorem compile_lines
    (compiler : Compiler) (graph : Graph) (wish : String)
    (occupied : graph.nodes ≠ [])
    (options : ∀ text ∈ compiler.options.written, OnOneLine text)
    (types : ∀ node ∈ graph.nodes, OnOneLine (compiler.typeText node.operation)) :
    (compiler.compile graph wish).source.toList.splitOn '\n' =
        (compiler.template graph wish).map (fun line => line.text.toList) ++ [[]] ∧
      ∀ line ∈ compiler.template graph wish,
        OnOneLine line.text ∧
          controls line.text = line.given.flatMap controls ∧
          ∀ text ∈ line.given, text ∈ compiler.options.written ∨
            ∃ node ∈ graph.nodes, compiler.typeText node.operation = text := by
  have plain := plain_compile compiler wish occupied
  have written : ∀ text ∈ compiler.writtenTexts graph.nodes, OnOneLine text :=
    List.forall_mem_append.mpr ⟨options, List.forall_mem_map.mpr types⟩
  have whole : ∀ line ∈ compiler.template graph wish, OnOneLine line.text :=
    fun line listed => (plain line listed).onOneLine written
  refine ⟨?_, fun line listed => ⟨whole line listed, (plain line listed).controls_eq, ?_⟩⟩
  · rw [source_eq_ofLines occupied, Source.splitOn_ofLines (List.forall_mem_map.mpr whole),
      List.map_map]
    rfl
  · intro text given
    rcases List.mem_append.mp ((plain line listed).given_subset given) with option | type
    · exact Or.inl option
    · exact Or.inr (List.mem_map.mp type)

/-- Ends of lines in ids, slots, a key and a string, and a tab in a type text. -/
def broken : Graph where
  nodes := [
    (Node.ofOperation "a\nb" "Strings.Trim").withInputValue "in"
      (.object [("k\r", .array [.string "\r\n"])]),
    .ofOperation "\n" "Pick<T,\t'x'>"]
  edges := [(Edge.between "e" "a\nb" "\n").withSlots "o\nut" "i\rn"]

/-- The end of a line in the name of the library module, and tabs as indentation. -/
def tabbed : Compiler :=
  { standard with options := { Options.standard with libraryModule := "t\nlang", indent := "\t" } }

theorem compile_lines_broken :
    broken.nodes ≠ [] ∧
      (∀ text ∈ tabbed.options.written, OnOneLine text) ∧
      (∀ node ∈ broken.nodes, OnOneLine (tabbed.typeText node.operation)) ∧
      (tabbed.compile broken "a\nresult").source.toList.splitOn '\n' =
        (tabbed.template broken "a\nresult").map (fun line => line.text.toList) ++ [[]] ∧
      ∀ line ∈ tabbed.template broken "a\nresult",
        OnOneLine line.text ∧
          controls line.text = line.given.flatMap controls ∧
          ∀ text ∈ line.given, text ∈ tabbed.options.written ∨
            ∃ node ∈ broken.nodes, tabbed.typeText node.operation = text := by
  have occupied : broken.nodes ≠ [] := List.cons_ne_nil _ _
  have options : ∀ text ∈ tabbed.options.written, OnOneLine text := by
    decide +kernel
  have types : ∀ node ∈ broken.nodes, OnOneLine (tabbed.typeText node.operation) := by
    decide +kernel
  exact ⟨occupied, options, types,
    compile_lines tabbed broken "a\nresult" occupied options types⟩

end Compiler

end TypeGraph
