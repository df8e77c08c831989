import TypeGraph.Operation.Catalog
import TypeGraph.OrderedMap
import TypeGraph.Text.NameSet

/-!
# Registries

The operations that a compiler knows, in the order of their first registration. Registering an id
again replaces the signature and keeps its place.
-/

namespace TypeGraph

/-- Operations by id, and the names that the library exports at top level. -/
structure Registry where
  signatures : OrderedMap String Signature
  exported : NameSet

namespace Registry

/-- No operations; the exported names are known all the same. -/
def empty : Registry :=
  ⟨.empty, .ofList Catalog.exportedNames⟩

def register (registry : Registry) (signature : Signature) : Registry :=
  { registry with signatures := registry.signatures.insert signature.id signature }

def registerAll (registry : Registry) (signatures : List Signature) : Registry :=
  signatures.foldl register registry

def exportName (registry : Registry) (name : String) : Registry :=
  { registry with exported := registry.exported.insert name }

/-- The operations of the catalog. -/
def standard : Registry :=
  empty.registerAll Catalog.operations

def get? (registry : Registry) (id : String) : Option Signature :=
  registry.signatures.get? id

/-- Whether an id is registered. -/
def contains (registry : Registry) (id : String) : Bool :=
  registry.signatures.contains id

/-- Whether the library exports a name at top level. -/
def isExported (registry : Registry) (name : String) : Bool :=
  registry.exported.contains name

/-- The ids in the order of their first registration. -/
def ids (registry : Registry) : List String :=
  registry.signatures.keys

/-- The number of operations. -/
def size (registry : Registry) : Nat :=
  registry.signatures.size

/-- Whether nothing is registered. -/
def isEmpty (registry : Registry) : Bool :=
  registry.signatures.isEmpty

/-- The signature of an operation: the registered one, or a stand-in with the slots that are wired
and those that hold values. -/
def resolve (registry : Registry) (operation : String) (wired valued : List String) : Signature :=
  match registry.get? operation with
  | some signature => signature
  | none => .opaqueFor operation wired valued

end Registry

end TypeGraph
