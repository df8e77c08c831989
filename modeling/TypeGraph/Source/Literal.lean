import TypeGraph.Json.Printer

/-!
# Literal types

JSON values as the types that hold just them.
-/

namespace TypeGraph.Source

open TypeGraph.Json TypeGraph.Text

mutual

/-- The literal type of a value: arrays become tuples, and objects object types. -/
def literal : Value → String
  | .null => "null"
  | .bool value => if value then "true" else "false"
  | .number value => value.text
  | .string value => doubleQuoted value
  | .array items => "[" ++ ", ".intercalate (literals items) ++ "]"
  | .object [] => "\x7b\x7d"
  | .object (member :: members) =>
    "\x7b " ++ "; ".intercalate (memberLiterals (member :: members)) ++ " \x7d"

def literals : List Value → List String
  | [] => []
  | item :: rest => literal item :: literals rest

def memberLiterals : List (String × Value) → List String
  | [] => []
  | (name, value) :: rest => (propertyKey name ++ ": " ++ literal value) :: memberLiterals rest

end

end TypeGraph.Source
