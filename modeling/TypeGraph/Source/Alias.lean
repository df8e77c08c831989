/-!
# Type aliases

The statements of an emitted file, each of which names a type. The body of an alias may take several
lines.
-/

namespace TypeGraph.Source

/-- A name and the lines of the type that it stands for. -/
structure Alias where
  name : String
  body : List String
deriving DecidableEq, Repr

/-- Lines with a text behind the last of them. -/
def endWith (ending : String) : List String → List String
  | [] => [ending]
  | [last] => [last ++ ending]
  | line :: lines => line :: endWith ending lines

/-- Lines with a text in front of the first of them. -/
def beginWith (beginning : String) : List String → List String
  | [] => [beginning]
  | first :: lines => (beginning ++ first) :: lines

namespace Alias

/-- An alias with a body of one line. -/
def ofType (name type : String) : Alias :=
  ⟨name, [type]⟩

def lines (statement : Alias) : List String :=
  endWith ";" (beginWith ("type " ++ statement.name ++ " = ") statement.body)

end Alias

theorem lines_ofType (name type : String) :
    (Alias.ofType name type).lines = ["type " ++ name ++ " = " ++ type ++ ";"] :=
  rfl

end TypeGraph.Source
