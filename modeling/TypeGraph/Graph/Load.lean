import TypeGraph.Graph.Canvas

/-!
# Loading graphs

A text is read as a graph, as a canvas, or as whichever of the two it looks like.
-/

namespace TypeGraph

open TypeGraph.Json

/-- Why no graph could be loaded. -/
inductive GraphError where
  /-- The text is no document of the format; `GraphFormat.complaint?` has what is said about it. -/
  | malformed
  | canvas (error : CanvasError)
  | unreadable (path : String) (reason : String)
deriving DecidableEq, Repr

/-- The wording of an error, with what is said about a malformed text. -/
def GraphError.message (error : GraphError) (complaint : Option String := none) : String :=
  match error with
  | malformed => "Failed to parse graph JSON: " ++ complaint.getD ""
  | canvas error => "Graph conversion failed: " ++ error.message
  | unreadable path reason => "Could not read graph file '" ++ path ++ "': " ++ reason

/-- The forms of text that hold a graph. -/
inductive GraphFormat where
  | graph
  | canvas
  | detected
deriving DecidableEq, Repr

/-- Whether a value is a canvas rather than a graph: one of its nodes has `data`. -/
def isCanvas (value : Value) : Bool :=
  match (value.member? "nodes").bind Value.items? with
  | none => false
  | some nodes => nodes.any fun node => (node.member? "data").isSome

def graphOfCanvas (canvas : Option Canvas) : Except GraphError Graph :=
  match canvas with
  | none => .error .malformed
  | some canvas =>
    match canvas.toGraph with
    | .error error => .error (.canvas error)
    | .ok graph => .ok graph

def graphOrMalformed (graph : Option Graph) : Except GraphError Graph :=
  match graph with
  | none => .error .malformed
  | some graph => .ok graph

/-- The graph in a text. To detect the form of a text, it is read as a value first, in which each
name has one member. -/
def GraphFormat.load (format : GraphFormat) (text : String) : Except GraphError Graph :=
  match format with
  | graph => graphOrMalformed (Graph.read? text)
  | canvas => graphOfCanvas (Canvas.read? text)
  | detected =>
    match Value.read? text with
    | none => .error .malformed
    | some value =>
      if isCanvas value then graphOfCanvas (Canvas.ofWritten? (.ofValue value))
      else graphOrMalformed (Graph.ofWritten? (.ofValue value))

/-- What is said about a text that is no document of the format. Where the form of a text is
detected, a value that is neither a canvas nor a graph has no positions any more. -/
def GraphFormat.complaint? (format : GraphFormat) (text : String) : Option String :=
  match format with
  | graph => (Diagnosis.fault? (Graph.wanted .inText) text).map Fault.message
  | canvas => (Diagnosis.fault? (Canvas.wanted .inText) text).map Fault.message
  | detected =>
    match Value.read? text with
    | none => (Diagnosis.fault? (Diagnosis.value Written.greatestDepth) text).map Fault.message
    | some value =>
      let check : Misfit.Check :=
        if isCanvas value then Canvas.wanted .inValue else Graph.wanted .inValue
      (check value).map Cause.phrase

end TypeGraph
