import TypeGraph.Plan.Component
import TypeGraph.Source.Alias
import TypeGraph.Source.Literal

/-!
# The text of a component

A component is written as the alias of its declaration, which shows its nodes, its connections and
its initial values, and then as the aliases of its steps and of its result.
-/

namespace TypeGraph.Source

open TypeGraph.Text

def objectType : List String → String
  | [] => "\x7b\x7d"
  | fields => "\x7b " ++ "; ".intercalate fields ++ " \x7d"

/-- The output of a node that has been applied. -/
def outputType (options : Options) (source : BoundSlot) : String :=
  options.outType ++ "<" ++ source.binding ++ ", " ++ singleQuoted source.slot ++ ">"

/-- One end of a connection. -/
def endpointType (endpoint : BoundSlot) : String :=
  objectType ["node: " ++ singleQuoted endpoint.binding, "port: " ++ singleQuoted endpoint.slot]

/-- A connection with its two ends. -/
def connectionType (connection : Connection) : String :=
  objectType ["from: " ++ endpointType connection.source, "to: " ++ endpointType connection.target]

def inputType (options : Options) : InputSource → String
  | .literal value => literal value
  | .output source => outputType options source

def inputsType (options : Options) (plan : NodePlan) : String :=
  objectType (plan.inputs.map fun (slot, source) =>
    propertyKey slot ++ ": " ++ inputType options source)

def initialValuesType (plan : NodePlan) : String :=
  objectType (plan.literalInputs.map fun (slot, value) =>
    propertyKey slot ++ ": " ++ literal value)

/-- Items on lines of their own between brackets, or the brackets alone on one line. -/
def bracketed (indent opening closing separator : String) : List String → List String
  | [] => [indent ++ opening ++ closing ++ separator]
  | items =>
    (indent ++ opening) :: items.map (indent ++ indent ++ ·) ++ [indent ++ closing ++ separator]

def nodeItems (plan : ComponentPlan) : List String :=
  plan.nodes.map fun node => node.binding ++ ": " ++ node.typeText ++ ";"

def connectionItems (plan : ComponentPlan) : List String :=
  plan.connections.map fun connection => connectionType connection ++ ","

/-- The initial values of the nodes that have any. -/
def initialItems (plan : ComponentPlan) : List String :=
  (plan.nodes.filter fun node => !node.literalInputs.isEmpty).map fun node =>
    node.binding ++ ": " ++ initialValuesType node ++ ";"

def declaration (options : Options) (plan : ComponentPlan) : Alias where
  name := plan.declaredName
  body :=
    (options.dagType ++ "<")
      :: bracketed options.indent "\x7b" "\x7d" "," (nodeItems plan)
      ++ bracketed options.indent "[" "]" "," (connectionItems plan)
      ++ bracketed options.indent "\x7b" "\x7d" "" (initialItems plan)
      ++ [">"]

/-- The alias that applies a node's operation to its inputs. -/
def step (options : Options) (plan : NodePlan) : Alias :=
  .ofType plan.binding
    (options.execType ++ "<" ++ plan.typeText ++ ", " ++ inputsType options plan ++ ">")

def result (options : Options) (plan : ComponentPlan) : Alias :=
  .ofType plan.resultAlias (outputType options plan.result)

/-- The aliases behind the declaration. -/
def stepsAndResult (options : Options) (plan : ComponentPlan) : List Alias :=
  plan.steps.map (step options) ++ [result options plan]

def aliases (options : Options) (plan : ComponentPlan) : List Alias :=
  declaration options plan :: stepsAndResult options plan

def componentComment (plan : ComponentPlan) : String :=
  let count := plan.nodes.length
  let noun := if count = 1 then "node" else "nodes"
  "// Component " ++ toString (plan.place + 1) ++ " (" ++ toString count ++ " " ++ noun ++ ")"

def componentLines (options : Options) (plan : ComponentPlan) : List String :=
  componentComment plan :: (declaration options plan).lines
    ++ "" :: (stepsAndResult options plan).flatMap Alias.lines

end TypeGraph.Source
