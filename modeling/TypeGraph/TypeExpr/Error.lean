import TypeGraph.TypeExpr.Token

/-!
# Errors in type text

Why a text is no type expression, where that is noticed, and the wording of each cause.
-/

namespace TypeGraph

/-- The greatest nesting of type arguments, tuples, objects and functions. -/
def greatestNesting : Nat :=
  128

/-- The place in the grammar where a token was not as it should be. -/
inductive Place where
  | type
  | qualifiedName
  | afterMinus
  | conditional
  | indexedAccessEnd
  | parenthesesEnd
  | argumentsEnd
  | tupleStart
  | tupleEnd
  | objectStart
  | objectEnd
  | objectKey
  | afterObjectKey
  | indexKey
  | afterIndexKey
  | indexEnd
  | afterIndex
  | mappedKeyEnd
  | mappedModifier
  | afterMappedKey
  | typeParameter
  | typeParametersEnd
  | parametersStart
  | parameterName
  | parametersEnd
  | afterParameters
deriving DecidableEq, Repr

namespace Place

/-- How messages speak of a place. -/
def phrase : Place → String
  | type => "in type expression"
  | qualifiedName => "in qualified name"
  | afterMinus => "after '-'"
  | conditional => "in a conditional type"
  | indexedAccessEnd => "to close an indexed access"
  | parenthesesEnd => "to close a parenthesized type"
  | argumentsEnd => "to close generic arguments"
  | tupleStart => "to open a tuple"
  | tupleEnd => "to close a tuple"
  | objectStart => "to open an object type"
  | objectEnd => "to close an object type"
  | objectKey => "as an object key"
  | afterObjectKey => "after an object key"
  | indexKey => "as an index signature key"
  | afterIndexKey => "after an index signature key"
  | indexEnd => "to close an index signature"
  | afterIndex => "after an index signature"
  | mappedKeyEnd => "to close a mapped key"
  | mappedModifier => "after a mapped modifier"
  | afterMappedKey => "after a mapped key"
  | typeParameter => "as a type parameter"
  | typeParametersEnd => "to close type parameters"
  | parametersStart => "to open function parameters"
  | parameterName => "as a parameter name"
  | parametersEnd => "to close function parameters"
  | afterParameters => "after function parameters"

end Place

/-- A place, and the one symbol that could stand there if there is only one. -/
structure Expectation where
  symbol : Option Symbol
  place : Place
deriving DecidableEq, Repr

/-- How messages speak of an expectation. -/
def Expectation.phrase (expectation : Expectation) : String :=
  match expectation.symbol with
  | none => expectation.place.phrase
  | some symbol =>
    "(expected " ++ (Token.symbol symbol).description ++ ") " ++ expectation.place.phrase

/-- Why a text is no type expression. Positions count bytes. -/
inductive TypeTextError where
  | invalidCharacter (text : String) (position : Nat)
  | unexpectedToken (found : Token) (position : Nat) (expectation : Expectation)
  | unexpectedEnd (expectation : Expectation)
  | trailingInput (position : Nat)
  | tooDeep
deriving DecidableEq, Repr

/-- The wording of an error. -/
def TypeTextError.message : TypeTextError → String
  | invalidCharacter text position =>
    s!"Invalid character at byte {position} in type expression '{text}'"
  | unexpectedToken found position expectation =>
    s!"Unexpected {found.description} at byte {position} {expectation.phrase}"
  | unexpectedEnd expectation => s!"Unexpected end of type expression {expectation.phrase}"
  | trailingInput position => s!"Unexpected trailing input at byte {position}"
  | tooDeep => s!"Type expression nests deeper than {greatestNesting} levels"

def Lexeme.ofTypeText (text : String) : Except TypeTextError (List Lexeme) :=
  match Lexeme.all text with
  | .ok lexemes => .ok lexemes
  | .error position => .error (.invalidCharacter text position)

end TypeGraph
