import TypeGraph.Proofs.Compiler.Hygiene
import TypeGraph.Proofs.Compiler.Imports
import TypeGraph.Source.File

/-!
# Imported names that a file declares again

The names of nodes and of the whole result keep off the imported names. The aliases of components
do not: they are taken as they come, and so are the imports. A file declares an imported name again
exactly where a type text asks for the alias of a component.
-/

namespace TypeGraph

theorem Source.names_aliases (options : Options) (plan : ComponentPlan) :
    (aliases options plan).map Alias.name =
      plan.declaredName :: plan.steps.map NodePlan.binding ++ [plan.resultAlias] := by
  rw [aliases, stepsAndResult, List.map_cons, List.map_append, List.map_map]
  rfl

namespace Compilation

variable {options : Options} {compilation : Compilation} {name : String}

/-- The names that the statements of a file declare. -/
def declaredNames (options : Options) (compilation : Compilation) : List String :=
  (Source.fileAliases options compilation.components compilation.resultAlias).map
    Source.Alias.name

theorem mem_declaredNames :
    name ∈ compilation.declaredNames options ↔
      name ∈ compilation.aliases ∨
        (∃ plan ∈ compilation.components, ∃ step ∈ plan.steps, step.binding = name) ∨
        name = compilation.resultAlias := by
  have component : ∀ plan : ComponentPlan,
      name ∈ (Source.aliases options plan).map Source.Alias.name ↔
        name ∈ plan.aliases ∨ ∃ step ∈ plan.steps, step.binding = name := by
    intro plan
    rw [Source.names_aliases, ComponentPlan.aliases]
    simp only [List.mem_append, List.mem_cons, List.mem_map, List.not_mem_nil, or_false]
    exact or_right_comm
  rw [declaredNames, Source.fileAliases, List.map_append, List.mem_append, List.map_flatMap,
    List.mem_flatMap, aliases, List.mem_flatMap, ← or_assoc]
  refine or_congr ?_ List.mem_singleton
  simp only [component, and_or_left, exists_or]

end Compilation

namespace Compiler

variable {compiler : Compiler} {graph : Graph} {wish : String} {name : String}

/-- Neither a step nor the whole result has an imported name. -/
theorem declared_alias_of_imported
    (imported : name ∈ (compiler.compile graph wish).imports)
    (declared : name ∈ (compiler.compile graph wish).declaredNames compiler.options) :
    name ∈ (compiler.compile graph wish).aliases := by
  by_cases empty : graph.nodes = []
  · rw [compile_of_empty empty] at imported
    cases imported
  · have taken : name ∈ (compiler.compile graph wish).occupiedNames :=
      List.mem_append_right _ (List.mem_append_left _ imported)
    have notGiven := not_gives_of_occupied empty taken
    rcases Compilation.mem_declaredNames.mp declared with ofComponent | ofStep | ofResult
    · exact ofComponent
    · obtain ⟨plan, planned, step, listed, named⟩ := ofStep
      have node := Component.mem_nodes_of_mem_steps listed
      exact absurd (Or.inl ⟨plan, planned, step, node, named⟩) notGiven
    · exact absurd (Or.inr ofResult) notGiven

/-- An alias of a component has the stem in front. -/
theorem exists_rest_of_mem_componentAliases
    {options : Options} {count : Nat} (member : name ∈ componentAliases options count) :
    ∃ rest, name = options.componentStem ++ "_" ++ rest := by
  obtain ⟨place, _, listed⟩ := List.mem_flatMap.mp member
  rcases List.mem_cons.mp listed with rfl | last
  · exact ⟨_, rfl⟩
  · rw [List.mem_singleton.mp last]
    exact ⟨_, String.append_assoc⟩

/-- No type that every file imports is an alias, with the default options. -/
theorem not_mem_importedTypes
    {count : Nat} (member : name ∈ componentAliases .standard count) :
    name ∉ Options.standard.importedTypes := by
  obtain ⟨rest, rfl⟩ := exists_rest_of_mem_componentAliases member
  intro imported
  have first : ∀ type ∈ Options.standard.importedTypes, type.toList.head? ≠ some 'T' := by
    decide
  refine first _ imported ?_
  rw [String.toList_append, String.toList_append, List.append_assoc]
  rfl

/-- An alias is imported exactly if a type text asks for it. -/
theorem imported_alias_iff (standard : compiler.options = .standard) :
    (name ∈ (compiler.compile graph wish).imports ∧
        name ∈ (compiler.compile graph wish).aliases) ↔
      name ∈ (compiler.compile graph wish).aliases ∧
        ∃ node ∈ graph.nodes, compiler.Needs node.operation name := by
  rw [and_comm]
  refine and_congr_right fun declared => ?_
  have occupied : graph.nodes ≠ [] := by
    intro empty
    rw [compile_of_empty empty] at declared
    cases declared
  rw [aliases_compile, standard] at declared
  have noType : name ∉ compiler.options.importedTypes := by
    rw [standard]
    exact not_mem_importedTypes declared
  rw [(compile_of_occupied occupied).1, mem_imports, or_iff_right noType]

/-- With the default options a file declares an imported name again exactly if that is the alias of
a component and a type text asks for it. -/
theorem imported_again_iff
    (registry : Registry) (rules : List Rule) (graph : Graph) (wish name : String) :
    let compiler : Compiler := ⟨registry, .standard, rules⟩
    let compilation := compiler.compile graph wish
    (name ∈ compilation.imports ∧ name ∈ compilation.aliases ↔
      name ∈ compilation.aliases ∧ ∃ node ∈ graph.nodes, compiler.Needs node.operation name) ∧
    (name ∈ compilation.imports ∧ name ∈ compilation.declaredNames compiler.options ↔
      name ∈ compilation.aliases ∧ ∃ node ∈ graph.nodes, compiler.Needs node.operation name) := by
  intro compiler compilation
  have clash : name ∈ compilation.imports ∧ name ∈ compilation.aliases ↔
      name ∈ compilation.aliases ∧ ∃ node ∈ graph.nodes, compiler.Needs node.operation name :=
    imported_alias_iff rfl
  have onlyAliases : name ∈ compilation.imports →
      name ∈ compilation.declaredNames compiler.options → name ∈ compilation.aliases :=
    declared_alias_of_imported
  have allAliases : name ∈ compilation.aliases →
      name ∈ compilation.declaredNames compiler.options :=
    fun declared => Compilation.mem_declaredNames.mpr (Or.inl declared)
  have again : name ∈ compilation.imports ∧ name ∈ compilation.declaredNames compiler.options ↔
      name ∈ compilation.imports ∧ name ∈ compilation.aliases :=
    and_congr_right fun imported => ⟨onlyAliases imported, allAliases⟩
  exact ⟨clash, again.trans clash⟩

/-- An operation whose type text asks for the alias of the first component. -/
def flowTrim : Signature :=
  ⟨"Flow.Trim", "Trim", "flow", "", [⟨"in", "Input", .string, true⟩],
    [⟨"out", "Output", .string, false⟩], "TypeFlow_1.Trim"⟩

def flowing : Compiler :=
  { standard with registry := Registry.standard.register flowTrim }

def flow : Graph where
  nodes := [.ofOperation "a" "Flow.Trim"]
  edges := []

/-- Nothing is reported of the graph. -/
example : flowing.problems flow = [] :=
  rfl

/-- The file imports a name and declares it as that of its component. -/
theorem aliases_imported :
    ¬ ∀ (compiler : Compiler) (graph : Graph) (wish : String),
      compiler.options = .standard → (graph.nodes.map Node.id).Nodup →
        ∀ name ∈ (compiler.compile graph wish).imports,
          name ∉ (compiler.compile graph wish).aliases := by
  intro apart
  have imported : "TypeFlow_1" ∈ (flowing.compile flow "").imports := by
    decide +kernel
  have declared : "TypeFlow_1" ∈ (flowing.compile flow "").aliases := by
    decide +kernel
  exact apart flowing flow "" rfl (by decide) _ imported declared

end Compiler

end TypeGraph
