import TypeGraph.Json.Value
import TypeGraph.Text.Quoted

/-!
# JSON text

Values as text without blanks, members in their order.
-/

namespace TypeGraph.Json.Value

open TypeGraph.Text

mutual

def text : Value → String
  | null => "null"
  | bool value => if value then "true" else "false"
  | number value => value.text
  | string value => doubleQuoted value
  | array items => "[" ++ ",".intercalate (itemTexts items) ++ "]"
  | object members => "\x7b" ++ ",".intercalate (memberTexts members) ++ "\x7d"

def itemTexts : List Value → List String
  | [] => []
  | item :: rest => text item :: itemTexts rest

def memberTexts : List (String × Value) → List String
  | [] => []
  | (name, value) :: rest => (doubleQuoted name ++ ":" ++ text value) :: memberTexts rest

end

end TypeGraph.Json.Value
