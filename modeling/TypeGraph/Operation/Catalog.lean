import TypeGraph.Operation.Signature

/-!
# The catalog

The operations of the combinator library that every registry starts with unless it starts empty,
and the names that the library exports at top level. Each operation is known by its slots and its
type text alone.
-/

namespace TypeGraph.Catalog

/-- The category of operations that compute on tuple lengths. -/
def arithmeticCategory : String :=
  "arithmetic"

/-- Names that the library exports outside of its namespaces. -/
def exportedNames : List String :=
  ["Pick", "Partial", "Required", "Identity", "Match", "Pipe", "Constant"]

/-- An input that needs a value. -/
def requiredInput (id label : String) (kind : SlotKind) : Slot :=
  ⟨id, label, kind, true⟩

/-- An input that can do without a value. -/
def optionalInput (id label : String) (kind : SlotKind) : Slot :=
  ⟨id, label, kind, false⟩

def output (id label : String) (kind : SlotKind) : Slot :=
  ⟨id, label, kind, false⟩

def stringOperations : List Signature :=
  [
    ⟨"Strings.Uppercase", "Uppercase", "strings",
      "Converts a string literal to upper case",
      [requiredInput "in" "Input" .string],
      [output "out" "Output" .string], "Strings.Uppercase"⟩,
    ⟨"Strings.Lowercase", "Lowercase", "strings",
      "Converts a string literal to lower case",
      [requiredInput "in" "Input" .string],
      [output "out" "Output" .string], "Strings.Lowercase"⟩,
    ⟨"Strings.Capitalize", "Capitalize", "strings",
      "Upper-cases the first character",
      [requiredInput "in" "Input" .string],
      [output "out" "Output" .string], "Strings.Capitalize"⟩,
    ⟨"Strings.CamelCase", "Camel Case", "strings",
      "Converts snake, kebab or spaced words to camelCase",
      [requiredInput "in" "Input" .string],
      [output "out" "Output" .string], "Strings.CamelCase"⟩,
    ⟨"Strings.SnakeCase", "Snake Case", "strings",
      "Converts words to snake_case",
      [requiredInput "in" "Input" .string],
      [output "out" "Output" .string], "Strings.SnakeCase"⟩,
    ⟨"Strings.KebabCase", "Kebab Case", "strings",
      "Converts words to kebab-case",
      [requiredInput "in" "Input" .string],
      [output "out" "Output" .string], "Strings.KebabCase"⟩,
    ⟨"Strings.Trim", "Trim", "strings",
      "Removes surrounding whitespace",
      [requiredInput "in" "Input" .string],
      [output "out" "Output" .string], "Strings.Trim"⟩,
    ⟨"Strings.Split", "Split", "strings",
      "Splits a string literal into a tuple",
      [requiredInput "in" "Input" .string, requiredInput "separator" "Separator" .string],
      [output "out" "Parts" .array], "Strings.Split"⟩,
    ⟨"Strings.Join", "Join", "strings",
      "Joins a tuple of strings",
      [requiredInput "in" "Parts" .array, optionalInput "separator" "Separator" .string],
      [output "out" "Output" .string], "Strings.Join"⟩,
    ⟨"Strings.Replace", "Replace", "strings",
      "Replaces every occurrence of a substring",
      [requiredInput "in" "Input" .string, requiredInput "from" "From" .string,
        requiredInput "to" "To" .string],
      [output "out" "Output" .string], "Strings.Replace"⟩,
    ⟨"Strings.Concat", "Concat", "strings",
      "Concatenates two string literals",
      [requiredInput "left" "Left" .string, requiredInput "right" "Right" .string],
      [output "out" "Output" .string], "Strings.Concat"⟩
  ]

def tupleOperations : List Signature :=
  [
    ⟨"Tuples.Length", "Length", "tuples",
      "Number of elements in a tuple",
      [requiredInput "in" "Tuple" .array],
      [output "out" "Length" .number], "Tuples.Length"⟩,
    ⟨"Tuples.Reverse", "Reverse", "tuples",
      "Reverses a tuple",
      [requiredInput "in" "Tuple" .array],
      [output "out" "Output" .array], "Tuples.Reverse"⟩,
    ⟨"Tuples.Head", "Head", "tuples",
      "First element of a tuple",
      [requiredInput "in" "Tuple" .array],
      [output "out" "Head" .any], "Tuples.Head"⟩,
    ⟨"Tuples.Tail", "Tail", "tuples",
      "Every element but the first",
      [requiredInput "in" "Tuple" .array],
      [output "out" "Tail" .array], "Tuples.Tail"⟩,
    ⟨"Tuples.Last", "Last", "tuples",
      "Last element of a tuple",
      [requiredInput "in" "Tuple" .array],
      [output "out" "Last" .any], "Tuples.Last"⟩,
    ⟨"Tuples.Concat", "Concat", "tuples",
      "Concatenates two tuples",
      [requiredInput "left" "Left" .array, requiredInput "right" "Right" .array],
      [output "out" "Output" .array], "Tuples.Concat"⟩,
    ⟨"Tuples.Append", "Append", "tuples",
      "Appends one element",
      [requiredInput "in" "Tuple" .array, requiredInput "item" "Item" .any],
      [output "out" "Output" .array], "Tuples.Append"⟩
  ]

/-- Operations on numbers, which compute on tuple lengths. -/
def arithmeticOperations : List Signature :=
  [
    ⟨"Numbers.Add", "Add", arithmeticCategory,
      "Adds two numbers by tuple length",
      [requiredInput "a" "A" .number, requiredInput "b" "B" .number],
      [output "out" "Sum" .number], "Numbers.Add"⟩,
    ⟨"Numbers.Subtract", "Subtract", arithmeticCategory,
      "Subtracts b from a, clamped at zero",
      [requiredInput "a" "A" .number, requiredInput "b" "B" .number],
      [output "out" "Difference" .number], "Numbers.Subtract"⟩,
    ⟨"Numbers.Multiply", "Multiply", arithmeticCategory,
      "Multiplies two numbers by repeated tuple concatenation",
      [requiredInput "a" "A" .number, requiredInput "b" "B" .number],
      [output "out" "Product" .number], "Numbers.Multiply"⟩,
    ⟨"Numbers.Increment", "Increment", arithmeticCategory,
      "Adds one",
      [requiredInput "in" "Input" .number],
      [output "out" "Output" .number], "Numbers.Increment"⟩,
    ⟨"Numbers.Decrement", "Decrement", arithmeticCategory,
      "Subtracts one, clamped at zero",
      [requiredInput "in" "Input" .number],
      [output "out" "Output" .number], "Numbers.Decrement"⟩,
    ⟨"Numbers.GreaterThan", "Greater Than", arithmeticCategory,
      "Compares two numbers",
      [requiredInput "a" "A" .number, requiredInput "b" "B" .number],
      [output "out" "Result" .boolean], "Numbers.GreaterThan"⟩
  ]

def objectOperations : List Signature :=
  [
    ⟨"Objects.Keys", "Keys", "objects",
      "Tuple of an object's keys",
      [requiredInput "in" "Object" .object],
      [output "out" "Keys" .array], "Objects.Keys"⟩,
    ⟨"Objects.Values", "Values", "objects",
      "Tuple of an object's values",
      [requiredInput "in" "Object" .object],
      [output "out" "Values" .array], "Objects.Values"⟩,
    ⟨"Objects.MapKeys.CamelCase", "Camel Case Keys", "objects",
      "Renames every key to camelCase",
      [requiredInput "in" "Object" .object],
      [output "out" "Output" .object], "Objects.MapKeys<Strings.CamelCase>"⟩,
    ⟨"Objects.MapKeys.SnakeCase", "Snake Case Keys", "objects",
      "Renames every key to snake_case",
      [requiredInput "in" "Object" .object],
      [output "out" "Output" .object], "Objects.MapKeys<Strings.SnakeCase>"⟩,
    ⟨"Objects.Merge", "Merge", "objects",
      "Merges two objects, right side wins",
      [requiredInput "left" "Left" .object, requiredInput "right" "Right" .object],
      [output "out" "Output" .object], "Objects.Merge"⟩,
    ⟨"Objects.Get", "Get", "objects",
      "Reads one property",
      [requiredInput "in" "Object" .object, requiredInput "key" "Key" .string],
      [output "out" "Value" .any], "Objects.Get"⟩
  ]

/-- Operations outside of the namespaces. -/
def utilityOperations : List Signature :=
  [
    ⟨"Pick.UserName", "Pick user.name", "utility",
      "Reads the user.name path",
      [requiredInput "in" "Object" .object],
      [output "out" "Value" .any], "Pick<'user.name'>"⟩,
    ⟨"Partial", "Partial", "utility",
      "Makes every property optional",
      [requiredInput "in" "Object" .object],
      [output "out" "Output" .object], "Partial"⟩,
    ⟨"Required", "Required", "utility",
      "Makes every property required",
      [requiredInput "in" "Object" .object],
      [output "out" "Output" .object], "Required"⟩,
    ⟨"Identity", "Identity", "utility",
      "Passes its input through",
      [requiredInput "in" "Input" .any],
      [output "out" "Output" .any], "Identity"⟩,
    ⟨"Constant", "Constant", "utility",
      "Ignores its input and yields the configured value",
      [requiredInput "value" "Value" .any],
      [output "out" "Output" .any], "Constant"⟩,
    ⟨"Pipe.CamelUpper", "Camel then Upper", "utility",
      "Composes two string operations",
      [requiredInput "in" "Input" .string],
      [output "out" "Output" .string], "Pipe<[Strings.CamelCase, Strings.Uppercase]>"⟩
  ]

/-- Operations that choose by cases. -/
def matchingOperations : List Signature :=
  [
    ⟨"Match.BooleanLabel", "Match Boolean", "matching",
      "Maps a boolean to a label",
      [requiredInput "in" "Input" .boolean],
      [output "out" "Label" .string], "Match<[[true, 'yes'], [false, 'no']]>"⟩
  ]

def operations : List Signature :=
  stringOperations ++ tupleOperations ++ arithmeticOperations
    ++ objectOperations ++ utilityOperations ++ matchingOperations

end TypeGraph.Catalog
