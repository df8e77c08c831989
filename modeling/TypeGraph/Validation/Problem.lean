import TypeGraph.Json.Printer

/-!
# Problems

What a check can find fault with in a graph. A problem does not keep the graph from being compiled.
-/

namespace TypeGraph

open TypeGraph.Number

/-- Something wrong with a graph. -/
inductive Problem where
  | cycle
  | unknownOperation (label operation : String)
  | missingInput (label slot : String)
  | unsafeMagnitude (label : String) (value : Json.Value) (slot : String) (bound : Binary64)
  | crowdedInput (slot label : String) (count : Nat)
  | missingNode (edge node : String)
  /-- Something found by a rule that words its own findings. -/
  | remark (text : String)

/-- The wording of a problem. -/
def Problem.message : Problem → String
  | cycle => "Graph contains a cycle. Type-level DAGs must be acyclic."
  | unknownOperation label operation =>
    "Node \"" ++ label ++ "\" uses unknown operation \"" ++ operation ++ "\""
  | missingInput label slot =>
    "Node \"" ++ label ++ "\" is missing required input \"" ++ slot ++ "\""
  | unsafeMagnitude label value slot bound =>
    "Node \"" ++ label ++ "\": value " ++ value.text ++ " on input \"" ++ slot
      ++ "\" exceeds the safe magnitude of " ++ plainLayout.text bound
      ++ " for tuple-length arithmetic"
  | crowdedInput slot label count =>
    "Input \"" ++ slot ++ "\" on node \"" ++ label ++ "\" has " ++ toString count
      ++ " incoming connections; only the last one is used"
  | missingNode edge node =>
    "Connection \"" ++ edge ++ "\" references missing node \"" ++ node ++ "\""
  | remark text => text

end TypeGraph
