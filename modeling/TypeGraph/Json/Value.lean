import TypeGraph.Json.Number
import TypeGraph.OrderedMap

/-!
# JSON values

A value as a program holds it: the names of an object's members are pairwise distinct and keep
their order.
-/

namespace TypeGraph.Json

/-- A JSON value. -/
inductive Value where
  | null
  | bool (value : Bool)
  | number (value : Number)
  | string (value : String)
  | array (items : List Value)
  | object (members : List (String × Value))

namespace Value

instance : Inhabited Value :=
  ⟨null⟩

/-- An integer that fits into 64 bits. -/
def ofInt (value : Int) (fits : FitsWord value := by decide) : Value :=
  number (.integer value fits)

def member? (value : Value) (name : String) : Option Value :=
  match value with
  | object members => entryAt? name members
  | _ => none

def string? : Value → Option String
  | string text => some text
  | _ => none

def items? : Value → Option (List Value)
  | array items => some items
  | _ => none

/-- The binary64 number nearest to a value that is a number. -/
def toBinary64? : Value → Option TypeGraph.Number.Binary64
  | number value => value.toBinary64?
  | _ => none

mutual

/-- Equality as kept by loading and saving. -/
def same : Value → Value → Bool
  | null, null => true
  | bool left, bool right => left == right
  | number left, number right => left.same right
  | string left, string right => left == right
  | array left, array right => sameItems left right
  | object left, object right => sameMembers left right
  | _, _ => false

/-- Equality of lists of values, place by place. -/
def sameItems : List Value → List Value → Bool
  | [], [] => true
  | left :: lefts, right :: rights => same left right && sameItems lefts rights
  | _, _ => false

/-- Equality of lists of named values, place by place. -/
def sameMembers : List (String × Value) → List (String × Value) → Bool
  | [], [] => true
  | (leftName, left) :: lefts, (rightName, right) :: rights =>
    leftName == rightName && same left right && sameMembers lefts rights
  | _, _ => false

end

end Value

end TypeGraph.Json
