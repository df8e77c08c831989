import TypeGraph.Json.Value

/-!
# JSON as it is written

A document before it is known what will be read from it. Members keep their repetitions, and a
string or a number without a value (a lone surrogate, a number out of range) is still there, because
such parts do no harm where nothing reads them. `Written.value?` holds a part to all the rules of a
value.
-/

namespace TypeGraph.Json

/-- A well-formed document. A string, a number or a name that stands for nothing is `none`. -/
inductive Written where
  | null
  | bool (value : Bool)
  | number (value : Option Number)
  | string (value : Option String)
  | array (items : List Written)
  | object (members : List (Option String × Written))

namespace Written

instance : Inhabited Written :=
  ⟨null⟩

/-- The greatest number of arrays and objects around any part of a value. -/
def greatestDepth : Nat :=
  127

mutual

/-- The value of a part that may hold `depth` more levels of arrays and objects. Of members with one
name the last value counts, in the place of the first. -/
def valueWithin? : Written → (depth : Nat) → Option Value
  | null, _ => some .null
  | bool value, _ => some (.bool value)
  | number value, _ => value.map .number
  | string value, _ => value.map .string
  | array items, depth + 1 => (itemsWithin? items depth).map .array
  | array _, 0 => none
  | object members, depth + 1 =>
    (membersWithin? members depth).map fun members => .object (OrderedMap.ofList members).entries
  | object _, 0 => none

def itemsWithin? : List Written → (depth : Nat) → Option (List Value)
  | [], _ => some []
  | item :: rest, depth => do
    let value ← valueWithin? item depth
    let values ← itemsWithin? rest depth
    return value :: values

def membersWithin? :
    List (Option String × Written) → (depth : Nat) → Option (List (String × Value))
  | [], _ => some []
  | (name, item) :: rest, depth => do
    let name ← name
    let value ← valueWithin? item depth
    let values ← membersWithin? rest depth
    return (name, value) :: values

end

def value? (document : Written) : Option Value :=
  document.valueWithin? greatestDepth

mutual

/-- A value as a document of its own. -/
def ofValue : Value → Written
  | .null => null
  | .bool value => bool value
  | .number value => number (some value)
  | .string value => string (some value)
  | .array items => array (ofItems items)
  | .object members => object (ofMembers members)

/-- Values as documents. -/
def ofItems : List Value → List Written
  | [] => []
  | item :: rest => ofValue item :: ofItems rest

def ofMembers : List (String × Value) → List (Option String × Written)
  | [] => []
  | (name, value) :: rest => (some name, ofValue value) :: ofMembers rest

end

end Written

end TypeGraph.Json
