import TypeGraph.TypeExpr.Basic

/-!
# References of a type expression

The paths of names that a type expression refers to, in the order of its text, an enclosing
reference before its arguments. A single name is no reference where it is bound: a type parameter
in its function, the key of a mapped member in the rename and the value, and an inferred name in the
true branch of its conditional.
-/

namespace TypeGraph

mutual

/-- The names that `infer` introduces in a bound. Nested conditionals keep theirs to themselves. -/
def TypeExpr.inferredNames : TypeExpr → List String
  | .infer name => [name]
  | .reference _ arguments => inferredNamesOfAll arguments
  | .tuple parts | .union parts | .intersection parts => inferredNamesOfAll parts
  | .object members => inferredNamesOfMembers members
  | .array type | .rest type | .operation _ type => type.inferredNames
  | .indexed object index => object.inferredNames ++ index.inferredNames
  | .function _ parameters result => inferredNamesOfParameters parameters ++ result.inferredNames
  | .conditional _ _ _ _ | .string _ | .number _ => []

/-- The names introduced in any of several types. -/
def inferredNamesOfAll : List TypeExpr → List String
  | [] => []
  | type :: types => type.inferredNames ++ inferredNamesOfAll types

/-- Only the values of members count. -/
def Member.inferredNames : Member → List String
  | .property _ value | .index _ _ value | .mapped _ _ _ value => value.inferredNames

def inferredNamesOfMembers : List Member → List String
  | [] => []
  | member :: members => member.inferredNames ++ inferredNamesOfMembers members

def Parameter.inferredNames : Parameter → List String
  | .mk _ none => []
  | .mk _ (some type) => type.inferredNames

/-- The names introduced in any of several parameters. -/
def inferredNamesOfParameters : List Parameter → List String
  | [] => []
  | parameter :: parameters => parameter.inferredNames ++ inferredNamesOfParameters parameters

end

mutual

/-- The references of a type expression in the scope of the names in `bound`. -/
def TypeExpr.referencesWithin (bound : List String) : TypeExpr → List (List String)
  | .reference [name] arguments =>
    if name ∈ bound then referencesOfAll bound arguments
    else [name] :: referencesOfAll bound arguments
  | .reference path arguments => path :: referencesOfAll bound arguments
  | .tuple parts | .union parts | .intersection parts => referencesOfAll bound parts
  | .object members => referencesOfMembers bound members
  | .array type | .rest type | .operation _ type => type.referencesWithin bound
  | .indexed object index => object.referencesWithin bound ++ index.referencesWithin bound
  | .function typeParameters parameters result =>
    let inside := typeParameters.map TypeParameter.name ++ bound
    referencesOfTypeParameters inside typeParameters ++ referencesOfParameters inside parameters
      ++ result.referencesWithin inside
  | .conditional check limit whenTrue whenFalse =>
    check.referencesWithin bound ++ limit.referencesWithin bound
      ++ whenTrue.referencesWithin (limit.inferredNames ++ bound)
      ++ whenFalse.referencesWithin bound
  | .string _ | .number _ | .infer _ => []

/-- The references of several types in turn. -/
def referencesOfAll (bound : List String) : List TypeExpr → List (List String)
  | [] => []
  | type :: types => type.referencesWithin bound ++ referencesOfAll bound types

def referencesOfOptional (bound : List String) : Option TypeExpr → List (List String)
  | none => []
  | some type => type.referencesWithin bound

def Member.referencesWithin (bound : List String) : Member → List (List String)
  | .property _ value => value.referencesWithin bound
  | .index _ keyType value => keyType.referencesWithin bound ++ value.referencesWithin bound
  | .mapped key source rename value =>
    source.referencesWithin bound ++ referencesOfOptional (key :: bound) rename
      ++ value.referencesWithin (key :: bound)

/-- The references of several members in turn. -/
def referencesOfMembers (bound : List String) : List Member → List (List String)
  | [] => []
  | member :: members => member.referencesWithin bound ++ referencesOfMembers bound members

def TypeParameter.referencesWithin (bound : List String) : TypeParameter → List (List String)
  | .mk _ constraint default =>
    referencesOfOptional bound constraint ++ referencesOfOptional bound default

def referencesOfTypeParameters (bound : List String) : List TypeParameter → List (List String)
  | [] => []
  | parameter :: parameters =>
    parameter.referencesWithin bound ++ referencesOfTypeParameters bound parameters

def Parameter.referencesWithin (bound : List String) : Parameter → List (List String)
  | .mk _ type => referencesOfOptional bound type

/-- The references of several parameters in turn. -/
def referencesOfParameters (bound : List String) : List Parameter → List (List String)
  | [] => []
  | parameter :: parameters =>
    parameter.referencesWithin bound ++ referencesOfParameters bound parameters

end

def TypeExpr.references (type : TypeExpr) : List (List String) :=
  type.referencesWithin []

end TypeGraph
