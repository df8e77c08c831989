import TypeGraph.Source.Component

/-!
# The text of a file

An import statement, the components with a blank line behind each, and the alias of the whole
result.
-/

namespace TypeGraph.Source

open TypeGraph.Text

/-- The text of a file without nodes. -/
def placeholder : String :=
  "// Add nodes to the canvas to generate code"

def importStatement (options : Options) (names : List String) : String :=
  "import type \x7b " ++ ", ".intercalate names ++ " \x7d from "
    ++ singleQuoted options.libraryModule ++ ";"

/-- The whole result: that of the one component, or a tuple of all. -/
def wholeType : List String → String
  | [name] => name
  | names => "[" ++ ", ".intercalate names ++ "]"

def wholeResult (plans : List ComponentPlan) (name : String) : Alias :=
  .ofType name (wholeType (plans.map ComponentPlan.resultAlias))

def fileAliases (options : Options) (plans : List ComponentPlan) (name : String) : List Alias :=
  plans.flatMap (aliases options) ++ [wholeResult plans name]

def fileLines (options : Options) (imports : List String) (plans : List ComponentPlan)
    (name : String) : List String :=
  importStatement options imports :: ""
    :: plans.flatMap (fun plan => componentLines options plan ++ [""])
    ++ (wholeResult plans name).lines

/-- Lines as text, each with its end. -/
def ofLines (lines : List String) : String :=
  String.join (lines.map (· ++ "\n"))

end TypeGraph.Source
