import TypeGraph.Json.Written

/-!
# Records in JSON

A record is read from an object or from an array of its fields in order. Members with other names
are passed over, a field may have several names but is given once, and the last fields of an array
may be left out as far as they have defaults.
-/

namespace TypeGraph.Json.Written

/-- The one member under any of a field's names. `none` if there are several. -/
def fieldAmong? (members : List (Option String × Written)) (names : List String) :
    Option (Option Written) :=
  match members.filter fun member => (member.1.map names.contains).getD false with
  | [] => some none
  | [member] => some (some member.2)
  | _ => none

/-- The fields of a record with the given names, each present or absent. -/
def fields? (names : List (List String)) : Written → Option (List (Option Written))
  | array items =>
    if items.length ≤ names.length then
      some (items.map some ++ List.replicate (names.length - items.length) none)
    else none
  | object members =>
    if members.all fun member => member.1.isSome then names.mapM (fieldAmong? members) else none
  | _ => none

def required {α : Type} (read : Written → Option α) (field : Option Written) : Option α :=
  field.bind read

def optional {α : Type} (default : α) (read : Written → Option α) : Option Written → Option α
  | none => some default
  | some document => read document

/-- A field that may be null. -/
def nullable {α : Type} (read : Written → Option α) : Written → Option (Option α)
  | null => some none
  | document => (read document).map some

def string? : Written → Option String
  | string value => value
  | _ => none

/-- A truth value. -/
def bool? : Written → Option Bool
  | bool value => some value
  | _ => none

/-- An array of parts of one kind. -/
def list? {α : Type} (read : Written → Option α) : Written → Option (List α)
  | array items => items.mapM read
  | _ => none

/-- Named values, in an object with room for `depth` more levels inside it. -/
def namedValues? (depth : Nat) : Written → Option (OrderedMap String Value)
  | object members => (membersWithin? members depth).map OrderedMap.ofList
  | _ => none

end TypeGraph.Json.Written
