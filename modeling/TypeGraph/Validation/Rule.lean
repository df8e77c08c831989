import TypeGraph.Graph.Query
import TypeGraph.Operation.Catalog
import TypeGraph.Text.Inspected
import TypeGraph.Validation.Problem

/-!
# Rules

Checks that concern the operations of one category. A rule sees one node at a time, and of its
values only those that no edge takes the place of.
-/

namespace TypeGraph

open TypeGraph.Number

/-- A node as a rule sees it. -/
structure NodeContext where
  node : Node
  signature : Signature
  /-- The name of the node in messages. -/
  label : String
  wires : OrderedMap String Endpoint

namespace NodeContext

/-- Whether an edge leads to a slot. -/
def isWired (context : NodeContext) (slot : String) : Bool :=
  context.wires.contains slot

/-- The values of the slots that no edge leads to. -/
def literalInputs (context : NodeContext) : List (String × Json.Value) :=
  context.node.inputValues.entries.filter fun entry => !context.isWired entry.1

/-- The name of a slot in messages. -/
def slotLabel (context : NodeContext) (slot : String) : String :=
  ((context.signature.input? slot).map Slot.label).getD slot

end NodeContext

/-- A check of the nodes with operations of one category. -/
structure Rule where
  category : String
  check : NodeContext → List Problem

namespace Rule

/-- The bound on numbers that are represented by tuples of that length: one thousand. -/
def standardBound : Binary64 :=
  ⟨false, 0x408F400000000000, by decide⟩

/-- Whether a value is a number whose magnitude is not within a bound. -/
def exceeds (bound : Binary64) (value : Json.Value) : Bool :=
  match value.toBinary64? with
  | none => false
  | some number => bound.lt number.abs

/-- Finds numbers that are too large for arithmetic on tuple lengths. -/
def safeMagnitude (category : String) (bound : Binary64) : Rule where
  category := category
  check context :=
    (context.literalInputs.filter fun entry => exceeds bound entry.2).map fun entry =>
      .unsafeMagnitude context.label entry.2 (context.slotLabel entry.1) bound

/-- The rules that apply where nothing else is said. -/
def standard : List Rule :=
  [safeMagnitude Catalog.arithmeticCategory standardBound]

/-- Rules by their categories, for inspection. -/
def inspect (rules : List Rule) : String :=
  "Validator \x7b rules: ["
    ++ ", ".intercalate (rules.map fun rule => Text.inspected rule.category) ++ "] \x7d"

end Rule

end TypeGraph
