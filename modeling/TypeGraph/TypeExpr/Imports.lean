import TypeGraph.TypeExpr.Parser
import TypeGraph.TypeExpr.References
import TypeGraph.Text.NameSet

/-!
# Imports of type text

Which names of the combinator library a type text needs: the first name of a path of several, and a
single name that the library exports at top level.
-/

namespace TypeGraph

/-- Names to import. -/
structure Imports where
  /-- Namespaces, the first names of longer paths. -/
  namespaces : NameSet
  /-- Operations that are exported at top level. -/
  operations : NameSet
deriving DecidableEq

namespace Imports

def empty : Imports :=
  ⟨.empty, .empty⟩

/-- Whether nothing is imported. -/
def isEmpty (imports : Imports) : Bool :=
  imports.namespaces.isEmpty && imports.operations.isEmpty

/-- All names of both. -/
def merge (left right : Imports) : Imports :=
  ⟨left.namespaces.union right.namespaces, left.operations.union right.operations⟩

/-- Namespaces and operations together. -/
def names (imports : Imports) : NameSet :=
  imports.namespaces.union imports.operations

/-- The imports that one reference adds, where `exported` holds the names exported at top level. -/
def addReference (exported : NameSet) (imports : Imports) : List String → Imports
  | [] => imports
  | [name] =>
    if exported.contains name then { imports with operations := imports.operations.insert name }
    else imports
  | first :: _ => { imports with namespaces := imports.namespaces.insert first }

/-- The imports of a type text. A text that is no type expression needs none. -/
def ofTypeText (exported : NameSet) (text : String) : Imports :=
  match TypeExpr.parse text with
  | .ok type => type.references.foldl (addReference exported) empty
  | .error _ => empty

def ofTypeTexts (exported : NameSet) (texts : List String) : Imports :=
  texts.foldl (fun imports text => imports.merge (ofTypeText exported text)) empty

end Imports

end TypeGraph
