import TypeGraph.OrderedMap
import TypeGraph.Text.Identifier

/-!
# Names of nodes

Ids become identifiers that differ from each other and from all names that are taken already. Of two
ids with the same identifier the later one gets a number behind it.
-/

namespace TypeGraph

/-- Words that no type may be called. -/
def reservedWords : List String :=
  ["any", "as", "bigint", "boolean", "break", "case", "catch", "class", "const", "continue",
    "debugger", "default", "delete", "do", "else", "enum", "export", "extends", "false", "finally",
    "for", "function", "if", "implements", "import", "in", "infer", "instanceof", "interface", "is",
    "keyof", "let", "never", "new", "null", "number", "object", "package", "private", "protected",
    "public", "readonly", "return", "static", "string", "super", "switch", "symbol", "this",
    "throw", "true", "try", "type", "typeof", "undefined", "unique", "unknown", "var", "void",
    "while", "with", "yield"]

/-- Names that are taken, and those given to ids. -/
structure NameTable where
  taken : List String
  bindings : OrderedMap String String

namespace NameTable

/-- The table in which the reserved words and some further names are taken. -/
def reserving (names : List String) : NameTable :=
  ⟨reservedWords ++ names, .empty⟩

/-- A name with a number behind it. -/
def numbered (base : String) (number : Nat) : String :=
  base ++ "_" ++ toString number

/-- The first name that is free among `base` with the numbers from `number` on. -/
def firstNumbered (taken : List String) (base : String) : (tries number : Nat) → String
  | 0, number => numbered base number
  | tries + 1, number =>
    if taken.contains (numbered base number) then firstNumbered taken base tries (number + 1)
    else numbered base number

/-- The first free name among `base`, `base_2`, `base_3`, …; there are more of these than taken
names. -/
def firstFree (taken : List String) (base : String) : String :=
  if taken.contains base then firstNumbered taken base taken.length 2 else base

/-- Takes a free name made of a text. -/
def claim (table : NameTable) (text : String) : String × NameTable :=
  let name := firstFree table.taken (Text.sanitize text)
  (name, { table with taken := name :: table.taken })

/-- Gives an id a name, unless it has one. -/
def assign (table : NameTable) (id : String) : NameTable :=
  if table.bindings.contains id then table
  else
    let (name, table) := table.claim id
    { table with bindings := table.bindings.insert id name }

/-- Gives names to ids in turn. -/
def assignAll (table : NameTable) (ids : List String) : NameTable :=
  ids.foldl assign table

/-- The name of an id. An id without one is made an identifier without regard to other names. -/
def binding (table : NameTable) (id : String) : String :=
  (table.bindings.get? id).getD (Text.sanitize id)

end NameTable

end TypeGraph
