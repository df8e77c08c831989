import Mathlib.Logic.Basic
import TypeGraph.TypeExpr.References

/-!
# Texts of string literals

The texts of string literals and the keys of properties can be replaced throughout a type
expression, and its references are the same as before.
-/

namespace TypeGraph

mutual

/-- The type expression with other texts in its string literals and other property keys. -/
def TypeExpr.mapText (change : String → String) : TypeExpr → TypeExpr
  | .reference path arguments => .reference path (mapTextOfAll change arguments)
  | .string text => .string (change text)
  | .number numeral => .number numeral
  | .tuple elements => .tuple (mapTextOfAll change elements)
  | .object members => .object (mapTextOfMembers change members)
  | .union parts => .union (mapTextOfAll change parts)
  | .intersection parts => .intersection (mapTextOfAll change parts)
  | .array element => .array (element.mapText change)
  | .indexed object index => .indexed (object.mapText change) (index.mapText change)
  | .operation operator operand => .operation operator (operand.mapText change)
  | .rest tail => .rest (tail.mapText change)
  | .function typeParameters parameters result =>
    .function (mapTextOfTypeParameters change typeParameters)
      (mapTextOfParameters change parameters) (result.mapText change)
  | .conditional check bound whenTrue whenFalse =>
    .conditional (check.mapText change) (bound.mapText change) (whenTrue.mapText change)
      (whenFalse.mapText change)
  | .infer name => .infer name

def mapTextOfAll (change : String → String) : List TypeExpr → List TypeExpr
  | [] => []
  | type :: types => type.mapText change :: mapTextOfAll change types

def mapTextOfOptional (change : String → String) : Option TypeExpr → Option TypeExpr
  | none => none
  | some type => some (type.mapText change)

def Member.mapText (change : String → String) : Member → Member
  | .property key value => .property (change key) (value.mapText change)
  | .index key keyType value => .index key (keyType.mapText change) (value.mapText change)
  | .mapped key source rename value =>
    .mapped key (source.mapText change) (mapTextOfOptional change rename) (value.mapText change)

def mapTextOfMembers (change : String → String) : List Member → List Member
  | [] => []
  | member :: members => member.mapText change :: mapTextOfMembers change members

def TypeParameter.mapText (change : String → String) : TypeParameter → TypeParameter
  | .mk name constraint default =>
    .mk name (mapTextOfOptional change constraint) (mapTextOfOptional change default)

def mapTextOfTypeParameters (change : String → String) : List TypeParameter → List TypeParameter
  | [] => []
  | parameter :: parameters =>
    parameter.mapText change :: mapTextOfTypeParameters change parameters

def Parameter.mapText (change : String → String) : Parameter → Parameter
  | .mk name type => .mk name (mapTextOfOptional change type)

def mapTextOfParameters (change : String → String) : List Parameter → List Parameter
  | [] => []
  | parameter :: parameters => parameter.mapText change :: mapTextOfParameters change parameters

end

section

variable (change : String → String)

theorem mapTextOfAll_eq_map (types : List TypeExpr) :
    mapTextOfAll change types = types.map (TypeExpr.mapText change) := by
  induction types with
  | nil =>
      rfl
  | cons type types inner =>
      rw [mapTextOfAll, inner, List.map_cons]

theorem mapTextOfOptional_eq_map (type : Option TypeExpr) :
    mapTextOfOptional change type = type.map (TypeExpr.mapText change) := by
  cases type <;> rfl

theorem mapTextOfMembers_eq_map (members : List Member) :
    mapTextOfMembers change members = members.map (Member.mapText change) := by
  induction members with
  | nil =>
      rfl
  | cons member members inner =>
      rw [mapTextOfMembers, inner, List.map_cons]

theorem mapTextOfTypeParameters_eq_map (parameters : List TypeParameter) :
    mapTextOfTypeParameters change parameters =
      parameters.map (TypeParameter.mapText change) := by
  induction parameters with
  | nil =>
      rfl
  | cons parameter parameters inner =>
      rw [mapTextOfTypeParameters, inner, List.map_cons]

theorem mapTextOfParameters_eq_map (parameters : List Parameter) :
    mapTextOfParameters change parameters = parameters.map (Parameter.mapText change) := by
  induction parameters with
  | nil =>
      rfl
  | cons parameter parameters inner =>
      rw [mapTextOfParameters, inner, List.map_cons]

theorem names_mapText (parameters : List TypeParameter) :
    (mapTextOfTypeParameters change parameters).map TypeParameter.name =
      parameters.map TypeParameter.name := by
  rw [mapTextOfTypeParameters_eq_map, List.map_map]
  congr 1
  funext parameter
  cases parameter
  rfl

end

/-! ## Nothing is changed -/

mutual

theorem TypeExpr.mapText_id : (type : TypeExpr) → type.mapText id = type
  | .reference _ arguments => by rw [TypeExpr.mapText, mapTextOfAll_id arguments]
  | .string _ => by rw [TypeExpr.mapText, id]
  | .number _ => by rw [TypeExpr.mapText]
  | .tuple elements => by rw [TypeExpr.mapText, mapTextOfAll_id elements]
  | .object members => by rw [TypeExpr.mapText, mapTextOfMembers_id members]
  | .union parts => by rw [TypeExpr.mapText, mapTextOfAll_id parts]
  | .intersection parts => by rw [TypeExpr.mapText, mapTextOfAll_id parts]
  | .array element => by rw [TypeExpr.mapText, element.mapText_id]
  | .indexed object index => by rw [TypeExpr.mapText, object.mapText_id, index.mapText_id]
  | .operation _ operand => by rw [TypeExpr.mapText, operand.mapText_id]
  | .rest tail => by rw [TypeExpr.mapText, tail.mapText_id]
  | .function typeParameters parameters result => by
    rw [TypeExpr.mapText, mapTextOfTypeParameters_id typeParameters,
      mapTextOfParameters_id parameters, result.mapText_id]
  | .conditional check bound whenTrue whenFalse => by
    rw [TypeExpr.mapText, check.mapText_id, bound.mapText_id, whenTrue.mapText_id,
      whenFalse.mapText_id]
  | .infer _ => by rw [TypeExpr.mapText]

theorem mapTextOfAll_id : (types : List TypeExpr) → mapTextOfAll id types = types
  | [] => rfl
  | type :: types => by rw [mapTextOfAll, type.mapText_id, mapTextOfAll_id types]

theorem mapTextOfOptional_id : (type : Option TypeExpr) → mapTextOfOptional id type = type
  | none => rfl
  | some type => by rw [mapTextOfOptional, type.mapText_id]

theorem Member.mapText_id : (member : Member) → member.mapText id = member
  | .property _ value => by rw [Member.mapText, value.mapText_id, id]
  | .index _ keyType value => by rw [Member.mapText, keyType.mapText_id, value.mapText_id]
  | .mapped _ source rename value => by
    rw [Member.mapText, source.mapText_id, mapTextOfOptional_id rename, value.mapText_id]

theorem mapTextOfMembers_id : (members : List Member) → mapTextOfMembers id members = members
  | [] => rfl
  | member :: members => by rw [mapTextOfMembers, member.mapText_id, mapTextOfMembers_id members]

theorem TypeParameter.mapText_id : (parameter : TypeParameter) → parameter.mapText id = parameter
  | .mk _ constraint default => by
    rw [TypeParameter.mapText, mapTextOfOptional_id constraint, mapTextOfOptional_id default]

theorem mapTextOfTypeParameters_id :
    (parameters : List TypeParameter) → mapTextOfTypeParameters id parameters = parameters
  | [] => rfl
  | parameter :: parameters => by
    rw [mapTextOfTypeParameters, parameter.mapText_id, mapTextOfTypeParameters_id parameters]

theorem Parameter.mapText_id : (parameter : Parameter) → parameter.mapText id = parameter
  | .mk _ type => by rw [Parameter.mapText, mapTextOfOptional_id type]

theorem mapTextOfParameters_id :
    (parameters : List Parameter) → mapTextOfParameters id parameters = parameters
  | [] => rfl
  | parameter :: parameters => by
    rw [mapTextOfParameters, parameter.mapText_id, mapTextOfParameters_id parameters]

end

/-! ## References -/

section

variable (change : String → String)

mutual

theorem TypeExpr.inferredNames_mapText :
    (type : TypeExpr) → (type.mapText change).inferredNames = type.inferredNames
  | .reference _ arguments => inferredNamesOfAll_mapText arguments
  | .string _ | .number _ | .infer _ | .conditional _ _ _ _ => rfl
  | .tuple parts | .union parts | .intersection parts => inferredNamesOfAll_mapText parts
  | .object members => inferredNamesOfMembers_mapText members
  | .array type | .rest type | .operation _ type => type.inferredNames_mapText
  | .indexed object index =>
    congrArg₂ (· ++ ·) object.inferredNames_mapText index.inferredNames_mapText
  | .function _ parameters result =>
    congrArg₂ (· ++ ·) (inferredNamesOfParameters_mapText parameters)
      result.inferredNames_mapText

theorem inferredNamesOfAll_mapText :
    (types : List TypeExpr) →
      inferredNamesOfAll (mapTextOfAll change types) = inferredNamesOfAll types
  | [] => rfl
  | type :: types =>
    congrArg₂ (· ++ ·) type.inferredNames_mapText (inferredNamesOfAll_mapText types)

theorem Member.inferredNames_mapText :
    (member : Member) → (member.mapText change).inferredNames = member.inferredNames
  | .property _ value | .index _ _ value | .mapped _ _ _ value => value.inferredNames_mapText

theorem inferredNamesOfMembers_mapText :
    (members : List Member) →
      inferredNamesOfMembers (mapTextOfMembers change members) = inferredNamesOfMembers members
  | [] => rfl
  | member :: members =>
    congrArg₂ (· ++ ·) member.inferredNames_mapText (inferredNamesOfMembers_mapText members)

theorem Parameter.inferredNames_mapText :
    (parameter : Parameter) → (parameter.mapText change).inferredNames = parameter.inferredNames
  | .mk _ none => rfl
  | .mk _ (some type) => type.inferredNames_mapText

theorem inferredNamesOfParameters_mapText :
    (parameters : List Parameter) →
      inferredNamesOfParameters (mapTextOfParameters change parameters) =
        inferredNamesOfParameters parameters
  | [] => rfl
  | parameter :: parameters =>
    congrArg₂ (· ++ ·) parameter.inferredNames_mapText
      (inferredNamesOfParameters_mapText parameters)

end

mutual

theorem TypeExpr.referencesWithin_mapText (bound : List String) :
    (type : TypeExpr) →
      (type.mapText change).referencesWithin bound = type.referencesWithin bound
  | .reference [] arguments => by
    rw [TypeExpr.mapText, TypeExpr.referencesWithin, TypeExpr.referencesWithin,
      referencesOfAll_mapText bound arguments] <;> simp
  | .reference [_] arguments => by
    rw [TypeExpr.mapText, TypeExpr.referencesWithin, TypeExpr.referencesWithin,
      referencesOfAll_mapText bound arguments]
  | .reference (_ :: _ :: _) arguments => by
    rw [TypeExpr.mapText, TypeExpr.referencesWithin, TypeExpr.referencesWithin,
      referencesOfAll_mapText bound arguments] <;> simp
  | .string _ | .number _ | .infer _ => by simp only [TypeExpr.mapText, TypeExpr.referencesWithin]
  | .tuple parts | .union parts | .intersection parts => by
    simp only [TypeExpr.mapText, TypeExpr.referencesWithin, referencesOfAll_mapText bound parts]
  | .object members => by
    simp only [TypeExpr.mapText, TypeExpr.referencesWithin,
      referencesOfMembers_mapText bound members]
  | .array type | .rest type | .operation _ type => by
    simp only [TypeExpr.mapText, TypeExpr.referencesWithin, type.referencesWithin_mapText bound]
  | .indexed object index => by
    simp only [TypeExpr.mapText, TypeExpr.referencesWithin,
      object.referencesWithin_mapText bound, index.referencesWithin_mapText bound]
  | .function typeParameters parameters result => by
    simp only [TypeExpr.mapText, TypeExpr.referencesWithin, names_mapText change typeParameters,
      referencesOfTypeParameters_mapText _ typeParameters,
      referencesOfParameters_mapText _ parameters, result.referencesWithin_mapText]
  | .conditional check limit whenTrue whenFalse => by
    simp only [TypeExpr.mapText, TypeExpr.referencesWithin, check.referencesWithin_mapText bound,
      limit.referencesWithin_mapText bound, TypeExpr.inferredNames_mapText change limit,
      whenTrue.referencesWithin_mapText, whenFalse.referencesWithin_mapText bound]

theorem referencesOfAll_mapText (bound : List String) :
    (types : List TypeExpr) →
      referencesOfAll bound (mapTextOfAll change types) = referencesOfAll bound types
  | [] => rfl
  | type :: types => by
    rw [mapTextOfAll, referencesOfAll, referencesOfAll, type.referencesWithin_mapText bound,
      referencesOfAll_mapText bound types]

theorem referencesOfOptional_mapText (bound : List String) :
    (type : Option TypeExpr) →
      referencesOfOptional bound (mapTextOfOptional change type) = referencesOfOptional bound type
  | none => rfl
  | some type => type.referencesWithin_mapText bound

theorem Member.referencesWithin_mapText (bound : List String) :
    (member : Member) →
      (member.mapText change).referencesWithin bound = member.referencesWithin bound
  | .property _ value => value.referencesWithin_mapText bound
  | .index _ keyType value =>
    congrArg₂ (· ++ ·) (keyType.referencesWithin_mapText bound)
      (value.referencesWithin_mapText bound)
  | .mapped key source rename value => by
    rw [Member.mapText, Member.referencesWithin, Member.referencesWithin,
      source.referencesWithin_mapText bound, referencesOfOptional_mapText (key :: bound) rename,
      value.referencesWithin_mapText (key :: bound)]

theorem referencesOfMembers_mapText (bound : List String) :
    (members : List Member) →
      referencesOfMembers bound (mapTextOfMembers change members) =
        referencesOfMembers bound members
  | [] => rfl
  | member :: members =>
    congrArg₂ (· ++ ·) (member.referencesWithin_mapText bound)
      (referencesOfMembers_mapText bound members)

theorem TypeParameter.referencesWithin_mapText (bound : List String) :
    (parameter : TypeParameter) →
      (parameter.mapText change).referencesWithin bound = parameter.referencesWithin bound
  | .mk _ constraint default =>
    congrArg₂ (· ++ ·) (referencesOfOptional_mapText bound constraint)
      (referencesOfOptional_mapText bound default)

theorem referencesOfTypeParameters_mapText (bound : List String) :
    (parameters : List TypeParameter) →
      referencesOfTypeParameters bound (mapTextOfTypeParameters change parameters) =
        referencesOfTypeParameters bound parameters
  | [] => rfl
  | parameter :: parameters =>
    congrArg₂ (· ++ ·) (parameter.referencesWithin_mapText bound)
      (referencesOfTypeParameters_mapText bound parameters)

theorem Parameter.referencesWithin_mapText (bound : List String) :
    (parameter : Parameter) →
      (parameter.mapText change).referencesWithin bound = parameter.referencesWithin bound
  | .mk _ type => referencesOfOptional_mapText bound type

theorem referencesOfParameters_mapText (bound : List String) :
    (parameters : List Parameter) →
      referencesOfParameters bound (mapTextOfParameters change parameters) =
        referencesOfParameters bound parameters
  | [] => rfl
  | parameter :: parameters =>
    congrArg₂ (· ++ ·) (parameter.referencesWithin_mapText bound)
      (referencesOfParameters_mapText bound parameters)

end

/-- The references do not depend on the texts of string literals and on the keys of properties. -/
theorem TypeExpr.references_mapText (type : TypeExpr) :
    (type.mapText change).references = type.references :=
  type.referencesWithin_mapText change []

end

end TypeGraph
