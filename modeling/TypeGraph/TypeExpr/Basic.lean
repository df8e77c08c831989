/-!
# Type expressions

The structure of the type text that an operation carries. Optional marks, modifiers and separators
leave no trace in it, and neither do parentheses.
-/

namespace TypeGraph

/-- Words that make a type out of the type behind them. -/
inductive TypeOperator where
  | keyOf
  | typeOf
  | readOnly
  | unique
deriving DecidableEq, Repr

namespace TypeOperator

/-- The word itself. -/
def word : TypeOperator → String
  | keyOf => "keyof"
  | typeOf => "typeof"
  | readOnly => "readonly"
  | unique => "unique"

def ofWord? (word : String) : Option TypeOperator :=
  [keyOf, typeOf, readOnly, unique].find? fun operator => operator.word == word

end TypeOperator

mutual

/-- A type expression. -/
inductive TypeExpr where
  /-- A path of names such as `A.B`, perhaps with type arguments: `A.B<T, U>`. -/
  | reference (path : List String) (arguments : List TypeExpr)
  /-- The type of one string, as it is written between its quotes. -/
  | string (text : String)
  /-- The type of one number, with its sign. -/
  | number (numeral : String)
  /-- Elements in brackets, `[T, U]`. -/
  | tuple (elements : List TypeExpr)
  /-- Members in braces. -/
  | object (members : List Member)
  | union (parts : List TypeExpr)
  | intersection (parts : List TypeExpr)
  /-- The arrays of a type, `T[]`. -/
  | array (element : TypeExpr)
  /-- The type of a property, `T[K]`. -/
  | indexed (object index : TypeExpr)
  | operation (operator : TypeOperator) (operand : TypeExpr)
  /-- The remaining elements of a tuple, `...T`. -/
  | rest (tail : TypeExpr)
  /-- A function type `<T>(a: A) => R`, or the type of a method. -/
  | function (typeParameters : List TypeParameter) (parameters : List Parameter)
      (result : TypeExpr)
  /-- A choice between types, `C extends E ? T : F`. -/
  | conditional (check bound whenTrue whenFalse : TypeExpr)
  /-- A name for a part of the bound of a conditional, `infer X`. -/
  | infer (name : String)

/-- A member of an object type. -/
inductive Member where
  /-- A property `key: T`, or a method `key(a: A): R`. -/
  | property (key : String) (value : TypeExpr)
  /-- An index signature, `[key: K]: T`. -/
  | index (key : String) (keyType value : TypeExpr)
  /-- A property for each member of a type, `[K in S as R]: T`. -/
  | mapped (key : String) (source : TypeExpr) (rename : Option TypeExpr) (value : TypeExpr)

/-- A type parameter of a function, `T extends C = D`. -/
inductive TypeParameter where
  | mk (name : String) (constraint default : Option TypeExpr)

/-- A parameter of a function. Its name stands for a value and is never a reference. -/
inductive Parameter where
  | mk (name : String) (type : Option TypeExpr)

end

namespace TypeExpr

instance : Inhabited TypeExpr :=
  ⟨tuple []⟩

/-- A reference that is one name. -/
def named (name : String) : TypeExpr :=
  reference [name] []

/-- Two parts or more joined by `join`; one part stands for itself. -/
def joined (join : List TypeExpr → TypeExpr) : List TypeExpr → TypeExpr
  | [part] => part
  | parts => join parts

end TypeExpr

namespace TypeParameter

/-- The name that is bound. -/
def name : TypeParameter → String
  | mk name _ _ => name

end TypeParameter

end TypeGraph
