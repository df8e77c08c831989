import TypeGraph.Operation.Signature
import TypeGraph.Json.Diagnosis
import TypeGraph.Json.Record
import TypeGraph.Json.Printer

/-!
# Signatures in JSON

A signature is a record with an id, a name and a type text; its category and description may be
left out, and so may its slots. A kind is given by its name, or as an object with null under that
name.
-/

namespace TypeGraph

open TypeGraph.Json

namespace SlotKind

/-- The kind that a document stands for. -/
def ofWritten? : Written → Option SlotKind
  | .string name => name.bind ofName?
  | .object [(name, .null)] => name.bind ofName?
  | _ => none

def wanted : TextReader Unit :=
  Diagnosis.choice (all.map name)

def toJson (kind : SlotKind) : Value :=
  .string kind.name

end SlotKind

namespace Slot

def ofWritten? (document : Written) : Option Slot := do
  match ← document.fields? [["id"], ["label"], ["type"], ["required"]] with
  | [id, label, kind, required] =>
    let id ← Written.required Written.string? id
    let label ← Written.required Written.string? label
    let kind ← Written.required SlotKind.ofWritten? kind
    let required ← Written.optional false Written.bool? required
    return ⟨id, label, kind, required⟩
  | _ => none

def wanted : TextReader Unit :=
  Diagnosis.record "PortDef"
    [.needed "id" Diagnosis.string, .needed "label" Diagnosis.string,
      .needed "type" SlotKind.wanted, .spare "required" Diagnosis.truth]

def toJson (slot : Slot) : Value :=
  .object [("id", .string slot.id), ("label", .string slot.label), ("type", slot.kind.toJson),
    ("required", .bool slot.required)]

end Slot

namespace Signature

def ofWritten? (document : Written) : Option Signature := do
  match ← document.fields?
      [["id"], ["name"], ["category"], ["description"], ["inputs"], ["outputs"], ["tlangType"]] with
  | [id, name, category, description, inputs, outputs, typeText] =>
    let id ← Written.required Written.string? id
    let name ← Written.required Written.string? name
    let category ← Written.optional "" Written.string? category
    let description ← Written.optional "" Written.string? description
    let inputs ← Written.optional [] (Written.list? Slot.ofWritten?) inputs
    let outputs ← Written.optional [] (Written.list? Slot.ofWritten?) outputs
    let typeText ← Written.required Written.string? typeText
    return ⟨id, name, category, description, inputs, outputs, typeText⟩
  | _ => none

def wanted : TextReader Unit :=
  Diagnosis.record "OperationSignature"
    [.needed "id" Diagnosis.string, .needed "name" Diagnosis.string,
      .spare "category" Diagnosis.string, .spare "description" Diagnosis.string,
      .spare "inputs" (Diagnosis.list Slot.wanted), .spare "outputs" (Diagnosis.list Slot.wanted),
      .needed "tlangType" Diagnosis.string]

def toJson (signature : Signature) : Value :=
  .object [("id", .string signature.id), ("name", .string signature.name),
    ("category", .string signature.category), ("description", .string signature.description),
    ("inputs", .array (signature.inputs.map Slot.toJson)),
    ("outputs", .array (signature.outputs.map Slot.toJson)),
    ("tlangType", .string signature.typeText)]

def readList? (text : String) : Option (List Signature) :=
  (Written.read? text).bind (Written.list? ofWritten?)

/-- Why a text lists no signatures. -/
def listFault? (text : String) : Option Fault :=
  Diagnosis.fault? (Diagnosis.list wanted) text

end Signature

end TypeGraph
