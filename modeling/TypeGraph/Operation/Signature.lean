import TypeGraph.Json.Value

/-!
# Operation signatures

What is known of an operation: the slots it takes values in, the slots it gives values out of, and
the type text that stands for it.
-/

namespace TypeGraph

/-- The kind of value that a slot carries. -/
inductive SlotKind where
  | number
  | string
  | object
  | array
  | boolean
  | function
  | any
deriving DecidableEq, Repr

namespace SlotKind

def all : List SlotKind :=
  [number, string, object, array, boolean, function, any]

def name : SlotKind → String
  | number => "number"
  | string => "string"
  | object => "object"
  | array => "array"
  | boolean => "boolean"
  | function => "function"
  | any => "any"

def ofName? (name : String) : Option SlotKind :=
  all.find? fun kind => kind.name == name

/-- The value that fills a required slot for which none is given. -/
def sample : SlotKind → Json.Value
  | string => .string "hello_world"
  | number => .ofInt 42
  | boolean => .bool true
  | object => .object [("id", .ofInt 1), ("name", .string "example")]
  | array => .array [.ofInt 1, .ofInt 2, .ofInt 3]
  | function | any => .null

end SlotKind

/-- A named place for a value on an operation. -/
structure Slot where
  id : String
  label : String
  kind : SlotKind
  /-- Whether an operation cannot do without a value here. -/
  required : Bool
deriving DecidableEq, Repr

/-- The slot that a value leaves an operation by if nothing else is said. -/
def defaultOutput : String :=
  "out"

/-- The slot that a value enters an operation by if nothing else is said. -/
def defaultInput : String :=
  "in"

/-- An operation as the compiler sees it. -/
structure Signature where
  id : String
  name : String
  category : String
  description : String
  inputs : List Slot
  outputs : List Slot
  /-- The type expression that is emitted for the operation, as it stands. -/
  typeText : String
deriving DecidableEq, Repr

namespace Signature

def input? (signature : Signature) (id : String) : Option Slot :=
  signature.inputs.find? fun slot => slot.id == id

/-- The inputs that need a value. -/
def requiredInputs (signature : Signature) : List Slot :=
  signature.inputs.filter Slot.required

/-- The output that is read if no other is named: the first one. -/
def primaryOutput (signature : Signature) : String :=
  (signature.outputs.head?.map Slot.id).getD defaultOutput

/-- Adds a slot that nothing is known of but its id, unless there is one with that id. -/
def addUnknownSlot (required : Bool) (slots : List Slot) (id : String) : List Slot :=
  if slots.any fun slot => slot.id == id then slots else slots ++ [⟨id, id, .any, required⟩]

/-- The stand-in for an operation that is not registered. Its inputs are the slots with values,
which it needs, and then the slots with connections, which it does not; its id is its type text. -/
def opaqueFor (operation : String) (wired valued : List String) : Signature where
  id := operation
  name := operation
  category := ""
  description := ""
  inputs := wired.foldl (addUnknownSlot false) (valued.foldl (addUnknownSlot true) [])
  outputs := []
  typeText := operation

end Signature

end TypeGraph
