import TypeGraph.Source.File
import TypeGraph.TypeExpr.Imports
import TypeGraph.Validation.Report

/-!
# The compiler

A graph is divided into components, its nodes get names, each component is planned, and the plans
are written out as one file. A compiler also reports the problems of a graph, but compiles it
whatever they are.
-/

namespace TypeGraph

/-- The operations, the options and the rules in use. -/
structure Compiler where
  registry : Registry
  options : Options
  rules : List Rule

/-- What a compilation gives. -/
structure Compilation where
  /-- The imported names, the types that every file needs first. -/
  imports : List String
  components : List ComponentPlan
  /-- The alias of the whole result, empty if there is none. -/
  resultAlias : String
  source : String

namespace Compiler

/-- The compiler with the catalog, the default options and the default rules. -/
def standard : Compiler :=
  ⟨.standard, .standard, Rule.standard⟩

/-- The type text of an operation; one that is not registered is its own. -/
def typeText (compiler : Compiler) (operation : String) : String :=
  ((compiler.registry.get? operation).map Signature.typeText).getD operation

/-- The names that a file for the nodes imports. -/
def imports (compiler : Compiler) (nodes : List Node) : List String :=
  let texts := nodes.map fun node => compiler.typeText node.operation
  let needed := Imports.ofTypeTexts compiler.registry.exported texts
  (compiler.options.importedTypes ++ needed.names.names).eraseDups

/-- The aliases of a number of components and of their results. -/
def componentAliases (options : Options) (count : Nat) : List String :=
  (List.range count).flatMap fun place =>
    [options.componentAlias place, options.componentResultAlias place]

/-- The text that the whole result is named after. -/
def resultText (options : Options) (wish : String) : String :=
  if Text.allBlank wish then options.resultAlias else wish

/-- The alias of the whole result and the names of ids. Imported names and the aliases of the
components are taken from the beginning, and the whole result is named first. -/
def naming (options : Options) (imports : List String) (count : Nat) (wish : String)
    (ids : List String) : String × NameTable :=
  let reserved := imports ++ componentAliases options count
  let (resultAlias, table) := (NameTable.reserving reserved).claim (resultText options wish)
  (resultAlias, table.assignAll ids)

/-- Compiles a graph. The whole result gets a name like the one wished for. -/
def compile (compiler : Compiler) (graph : Graph) (wish : String) : Compilation :=
  if graph.isEmpty then ⟨[], [], "", Source.placeholder⟩
  else
    let components := connectedComponents graph.nodes graph.edges
    let imports := compiler.imports graph.nodes
    let (resultAlias, names) :=
      naming compiler.options imports components.length wish (graph.nodes.map Node.id)
    let plans := components.mapIdx (Component.plan compiler.registry compiler.options names)
    { imports := imports
      components := plans
      resultAlias := resultAlias
      source := Source.ofLines (Source.fileLines compiler.options imports plans resultAlias) }

def problems (compiler : Compiler) (graph : Graph) : List Problem :=
  Validation.problems compiler.rules compiler.registry graph

end Compiler

end TypeGraph
