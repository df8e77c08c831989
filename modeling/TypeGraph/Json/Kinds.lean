import TypeGraph.Json.Diagnosis

/-!
# Kinds of parts

A document that is wanted is described by the kinds of its parts. One description is held against a
text, which has positions, and against a value, which has none.
-/

namespace TypeGraph.Json

/-- The kinds of parts that a description is made of. -/
structure Kinds (α : Type) where
  string : α
  nullable : α → α
  list : α → α
  /-- Values under any names, with so many levels of arrays and objects inside. -/
  values : (depth : Nat) → α
  record : (name : String) → List (Diagnosis.Field α) → α

def Kinds.inText : Kinds (TextReader Unit) where
  string := Diagnosis.string
  nullable := Diagnosis.nullable
  list := Diagnosis.list
  values depth := Diagnosis.map (Diagnosis.value depth)
  record := Diagnosis.record

/-! ## Values -/

/-- What a value is found to be. -/
def Found.ofValue : Value → Found
  | .null => null
  | .bool value => truth value
  | .number (.integer value _) => integer value
  | .number (.real value) => real value
  | .string value => string value
  | .array _ => list
  | .object _ => object

namespace Misfit

/-- What is wrong with a value, if anything is. -/
abbrev Check :=
  Value → Option Cause

/-- A value found where another one is wanted. -/
def unfit (wanted : Wanted) : Check :=
  fun value => some (.kind (.ofValue value) wanted)

def string? : Check
  | .string _ => none
  | value => unfit .string value

/-- A value that may be null. -/
def nullable? (check : Check) : Check
  | .null => none
  | value => check value

def list? (check : Check) : Check
  | .array items => items.findSome? check
  | value => unfit .list value

/-- Values of any kind under any names. -/
def map? : Check
  | .object _ => none
  | value => unfit .map value

/-- The rest of the members of a record, of which some fields are given by then. -/
def members? (fields : List (Diagnosis.Field Check)) (given : List String) :
    List (String × Value) → Option Cause
  | [] => (Diagnosis.Field.missing? fields given).map fun field => .missingField field.name
  | (name, value) :: rest =>
    match Diagnosis.Field.named? fields name with
    | none => members? fields given rest
    | some field =>
      if given.contains field.name then some (.repeatedField field.name)
      else (field.part value).or (members? fields (field.name :: given) rest)

/-- The rest of an array of the fields of a record, with `place` fields in front and `length` items
in all. -/
def items? (record : String) (length : Nat) :
    (place : Nat) → List (Diagnosis.Field Check) → List Value → Option Cause
  | _, [], [] => none
  | _, [], _ :: _ => some (.tooLong length)
  | place, field :: fields, value :: values =>
    (field.part value).or (items? record length (place + 1) fields values)
  | place, field :: fields, [] =>
    if field.required then some (.tooShort place record (place + 1 + fields.length))
    else items? record length (place + 1) fields []

/-- A record, as an object or as an array of its fields. -/
def record? (name : String) (fields : List (Diagnosis.Field Check)) : Check
  | .object members => members? fields [] members
  | .array items => items? name items.length 0 fields items
  | value => unfit (.record name) value

end Misfit

def Kinds.inValue : Kinds Misfit.Check where
  string := Misfit.string?
  nullable := Misfit.nullable?
  list := Misfit.list?
  values _ := Misfit.map?
  record := Misfit.record?

end TypeGraph.Json
