import TypeGraph.Files.Directory
import TypeGraph.Graph.Load
import TypeGraph.Operation.Codec
import TypeGraph.Operation.Registry
import TypeGraph.Options

/-!
# Loading from files

Options, registries and graphs from files that some function reads.
-/

namespace TypeGraph

/-- Reads the file at a path. -/
abbrev FileReader :=
  String → Except FileError String

/-- Why no options or signatures could be loaded. -/
inductive ConfigError where
  | unreadable (path : String) (error : FileError)
  /-- The text of a file is not such a document; what is wrong with it is added as far as it is
  known. -/
  | malformed (path : String) (fault : Option Json.Fault)
deriving DecidableEq

/-- The wording of an error. -/
def ConfigError.message : ConfigError → String
  | unreadable path error => "Could not read '" ++ path ++ "': " ++ error.message
  | malformed path fault =>
    "Failed to parse '" ++ path ++ "': " ++ (fault.map Json.Fault.message).getD ""

/-- What a file describes. -/
def loadConfig {α : Type} (interpret : String → Option α) (diagnose : String → Option Json.Fault)
    (read : FileReader) (path : String) : Except ConfigError α :=
  match read path with
  | .error error => .error (.unreadable path error)
  | .ok text =>
    match interpret text with
    | none => .error (.malformed path (diagnose text))
    | some value => .ok value

def Options.load (read : FileReader) (path : String) : Except ConfigError Options :=
  loadConfig Options.read? Options.fault? read path

/-- The registry with the signatures of a file registered in turn, and their number. -/
def Registry.extend (registry : Registry) (read : FileReader) (path : String) :
    Except ConfigError (Nat × Registry) :=
  (loadConfig Signature.readList? Signature.listFault? read path).map fun signatures =>
    (signatures.length, registry.registerAll signatures)

def Graph.load (read : FileReader) (path : String) : Except GraphError Graph :=
  match read path with
  | .error error => .error (.unreadable path error.message)
  | .ok text => GraphFormat.graph.load text

end TypeGraph
