import TypeGraph.TypeExpr.Basic
import TypeGraph.TypeExpr.Error
import TypeGraph.Reader

/-!
# Reading type expressions

The grammar, with a comma or a semicolon allowed behind a last item:

```text
type         := union ('extends' union '?' type ':' type)?
union        := '|'? intersection ('|' intersection)*
intersection := '&'? operand ('&' operand)*
operand      := primary ('[' type? ']')*
primary      := reference | string | '-'? number | tuple | object | function
              | '(' type ')' | 'infer' name
              | ('keyof' | 'typeof' | 'readonly' | 'unique') operand
reference    := name ('.' name)* ('<' type (',' type)* '>')?
function     := 'new'? typeParameters? parameters '=>' result
typeParameters := '<' (name ('extends' type)? ('=' type)?),* '>'
parameters   := '(' ('...'? name '?'? (':' type)?),* ')'
result       := ('asserts' name 'is' | name 'is')? type | 'asserts' name
tuple        := '[' ('...'? type '?'?),* ']'
object       := '{' member;* '}'
member       := ('+' | '-')? 'readonly'? (property | index | mapped)
property     := (name | string | number) '?'? (':' type | typeParameters? parameters (':' result)?)
index        := '[' name ':' type ']' ':' type
mapped       := '[' name 'in' type ('as' type)? ']' (('+' | '-') '?' | '?')? ':' type
```

A parenthesis opens a function when the one that closes it is followed by an arrow. Each production
is a reader of its own. Those with types inside take the readers of types as arguments, and `level`
ties the knot by recursion on the nesting that is left.
-/

namespace TypeGraph

/-- A reader of lexemes. -/
abbrev TypeReader :=
  Reader TypeTextError Lexeme

namespace TypeReader

open Reader

variable {α : Type}

/-! ## Single tokens -/

/-- Fails at the next token, or at the end of the text. -/
def unexpected (expectation : Expectation) : TypeReader α :=
  fail fun
    | [] => .unexpectedEnd expectation
    | head :: _ => .unexpectedToken head.token head.start expectation

def isSymbol (kind : Symbol) (lexeme : Lexeme) : Bool :=
  lexeme.token == .symbol kind

def isWord (word : String) (lexeme : Lexeme) : Bool :=
  lexeme.token == .name word

/-- Takes a symbol if it is next. -/
def acceptSymbol (kind : Symbol) : TypeReader Bool :=
  accept (isSymbol kind)

/-- Takes a word if it is next. -/
def acceptWord (word : String) : TypeReader Bool :=
  accept (isWord word)

/-- Takes a symbol that has to be next. -/
def expect (kind : Symbol) (place : Place) : TypeReader Unit := do
  unless ← acceptSymbol kind do unexpected ⟨some kind, place⟩

def nextTwo : TypeReader (List Token) := do
  return ((← remaining).take 2).map Lexeme.token

/-- Takes a name that has to be next. -/
def name (place : Place) : TypeReader String := do
  match ← nextTwo with
  | .name text :: _ => skip 1; return text
  | _ => unexpected ⟨none, place⟩

/-! ## Lookahead -/

/-- Whether the parenthesis that brings the count of open ones to zero is followed by an arrow. -/
def closesBeforeArrow : (opened : Nat) → List Lexeme → Bool
  | _, [] => false
  | opened, head :: rest =>
    match head.token with
    | .symbol .openParen => closesBeforeArrow (opened + 1) rest
    | .symbol .closeParen =>
      if opened ≤ 1 then (rest.head?.map (isSymbol .arrow)).getD false
      else closesBeforeArrow (opened - 1) rest
    | _ => closesBeforeArrow opened rest

def beginsOperand : Token → Bool
  | .name _ | .string _ | .number _ => true
  | .symbol kind =>
    match kind with
    | .minus | .openBracket | .openBrace | .openParen => true
    | _ => false

/-! ## Productions -/

/-- The readers of one level of nesting. -/
structure Level where
  /-- A complete type. -/
  type : TypeReader TypeExpr
  /-- A type without unions, intersections and conditionals outside of brackets. -/
  operand : TypeReader TypeExpr

def within (inner : Option Level) (read : Level → TypeReader α) : TypeReader α :=
  match inner with
  | none => fail fun _ => .tooDeep
  | some level => read level

/-- A type argument list's items, after its opening bracket. -/
def typeArguments (type : TypeReader TypeExpr) : TypeReader (List TypeExpr) := do
  let first ← type
  let others ←
    if ← acceptSymbol .comma then untilClosed (isSymbol .greater) (isSymbol .comma) type
    else pure []
  expect .greater .argumentsEnd
  return first :: others

/-- A name or names with dots between them, and its type arguments. -/
def reference (inner : Option Level) : TypeReader TypeExpr := do
  let path ← separated (isSymbol .dot) (name .qualifiedName)
  if ← acceptSymbol .less then
    return .reference path (← within inner fun level => typeArguments level.type)
  else
    return .reference path []

def tupleElement (type : TypeReader TypeExpr) : TypeReader TypeExpr := do
  let spread ← acceptSymbol .ellipsis
  let element ← type
  let _ ← acceptSymbol .question
  return if spread then .rest element else element

/-- Elements in brackets. -/
def tuple (inner : Option Level) : TypeReader TypeExpr :=
  within inner fun level => do
    expect .openBracket .tupleStart
    let elements ←
      untilClosed (isSymbol .closeBracket) (isSymbol .comma) (tupleElement level.type)
    expect .closeBracket .tupleEnd
    return .tuple elements

/-- A type behind a word or a symbol that may be absent. -/
def optionalType (present : TypeReader Bool) (type : TypeReader TypeExpr) :
    TypeReader (Option TypeExpr) := do
  if ← present then
    return some (← type)
  else
    return none

/-- A type parameter with its constraint and its default. -/
def typeParameter (type : TypeReader TypeExpr) : TypeReader TypeParameter := do
  let text ← name .typeParameter
  let constraint ← optionalType (acceptWord "extends") type
  let default ← optionalType (acceptSymbol .equals) type
  return ⟨text, constraint, default⟩

/-- Type parameters, if a bracket opens them. -/
def typeParameters (type : TypeReader TypeExpr) : TypeReader (List TypeParameter) := do
  if ← acceptSymbol .less then
    let parameters ← untilClosed (isSymbol .greater) (isSymbol .comma) (typeParameter type)
    expect .greater .typeParametersEnd
    return parameters
  else
    return []

/-- A parameter with its type; dots in front of it and its optional mark leave no trace. -/
def parameter (type : TypeReader TypeExpr) : TypeReader Parameter := do
  let _ ← acceptSymbol .ellipsis
  let text ← name .parameterName
  let _ ← acceptSymbol .question
  return ⟨text, ← optionalType (acceptSymbol .colon) type⟩

/-- Parameters in parentheses. -/
def parameters (type : TypeReader TypeExpr) : TypeReader (List Parameter) := do
  expect .openParen .parametersStart
  let items ← untilClosed (isSymbol .closeParen) (isSymbol .comma) (parameter type)
  expect .closeParen .parametersEnd
  return items

/-- A result type. Of a type predicate the type is kept, and an assertion without a type gives
nothing. -/
def result (type : TypeReader TypeExpr) : TypeReader TypeExpr := do
  match ← nextTwo with
  | [.name "asserts", .name _] =>
    skip 2
    if ← acceptWord "is" then type else return .named "void"
  | [.name _, .name "is"] =>
    skip 2
    type
  | _ => type

/-- A function type, after the word `new` if there was one. -/
def function (inner : Option Level) : TypeReader TypeExpr :=
  within inner fun level => do
    let types ← typeParameters level.type
    let values ← parameters level.type
    expect .arrow .afterParameters
    return .function types values (← result level.type)

/-- The type of a method; without a result type it gives anything. -/
def method (type : TypeReader TypeExpr) : TypeReader TypeExpr := do
  let types ← typeParameters type
  let values ← parameters type
  if ← acceptSymbol .colon then
    return .function types values (← result type)
  else
    return .function types values (.named "any")

/-- A property or a method, from its key on. -/
def property (type : TypeReader TypeExpr) : TypeReader Member := do
  match ← nextTwo with
  | .name key :: _ | .string key :: _ | .number key :: _ =>
    skip 1
    let _ ← acceptSymbol .question
    if ← next (fun lexeme => isSymbol .openParen lexeme || isSymbol .less lexeme) then
      return .property key (← method type)
    else
      expect .colon .afterObjectKey
      return .property key (← type)
  | _ => unexpected ⟨none, .objectKey⟩

/-- The optional mark of a mapped member, which a sign may precede. -/
def mappedModifier : TypeReader Unit := do
  if ← accept (fun lexeme => isSymbol .plus lexeme || isSymbol .minus lexeme) then
    expect .question .mappedModifier
  else
    let _ ← acceptSymbol .question

/-- An index signature or a mapped member, after its opening bracket. -/
def bracketedMember (type : TypeReader TypeExpr) : TypeReader Member := do
  let key ← name .indexKey
  if ← acceptWord "in" then
    let source ← type
    let rename ← optionalType (acceptWord "as") type
    expect .closeBracket .mappedKeyEnd
    mappedModifier
    expect .colon .afterMappedKey
    return .mapped key source rename (← type)
  else
    expect .colon .afterIndexKey
    let keyType ← type
    expect .closeBracket .indexEnd
    expect .colon .afterIndex
    return .index key keyType (← type)

/-- Passes over a sign in front of the word `readonly`. -/
def readonlySign : TypeReader Unit := do
  match ← nextTwo with
  | [.symbol .plus, .name "readonly"] | [.symbol .minus, .name "readonly"] => skip 1
  | _ => return

/-- Passes over the word `readonly` where it is no key. -/
def readonlyWord : TypeReader Unit := do
  match ← nextTwo with
  | [.name "readonly", .symbol .colon] | [.name "readonly", .symbol .question]
  | [.name "readonly", .symbol .openParen] | [.name "readonly", .symbol .less] => return
  | .name "readonly" :: _ => skip 1
  | _ => return

/-- A member of an object. -/
def member (type : TypeReader TypeExpr) : TypeReader Member := do
  readonlySign
  readonlyWord
  if ← acceptSymbol .openBracket then bracketedMember type else property type

/-- Members in braces. -/
def object (inner : Option Level) : TypeReader TypeExpr :=
  within inner fun level => do
    expect .openBrace .objectStart
    let members ←
      untilClosed (isSymbol .closeBrace)
        (fun lexeme => isSymbol .semicolon lexeme || isSymbol .comma lexeme) (member level.type)
    expect .closeBrace .objectEnd
    return .object members

/-- A numeral behind a minus sign. -/
def negativeNumber : TypeReader TypeExpr := do
  skip 1
  match ← nextTwo with
  | .number numeral :: _ => skip 1; return .number ("-" ++ numeral)
  | _ => unexpected ⟨none, .afterMinus⟩

/-- A type in parentheses, which stands for itself. -/
def parenthesized (type : TypeReader TypeExpr) : TypeReader TypeExpr := do
  skip 1
  let inside ← type
  expect .closeParen .parenthesesEnd
  return inside

/-- A type operator and its operand if the next token can begin one, else a reference. -/
def operationOrReference (inner : Option Level) (word : String) (follower : Option Token) :
    TypeReader TypeExpr :=
  match TypeOperator.ofWord? word, (follower.map beginsOperand).getD false with
  | some operator, true => do
    skip 1
    return .operation operator (← within inner Level.operand)
  | _, _ => reference inner

/-- A type without brackets behind it. Its first two tokens decide what it is, but for a
parenthesis, which may open a function. -/
def primary (type : TypeReader TypeExpr) (inner : Option Level) : TypeReader TypeExpr := do
  match ← nextTwo with
  | [.name "infer", .name text] => skip 2; return .infer text
  | [.name "new", .symbol .openParen] | [.name "new", .symbol .less] => skip 1; function inner
  | .name word :: followers => operationOrReference inner word followers.head?
  | .string text :: _ => skip 1; return .string text
  | .number numeral :: _ => skip 1; return .number numeral
  | .symbol .less :: _ => function inner
  | .symbol .openParen :: _ =>
    if closesBeforeArrow 0 (← remaining) then function inner else parenthesized type
  | .symbol .minus :: _ => negativeNumber
  | .symbol .openBracket :: _ => tuple inner
  | .symbol .openBrace :: _ => object inner
  | _ => unexpected ⟨none, .type⟩

/-- What stands in brackets behind a type: nothing, or an index. -/
def accessBody (type : TypeReader TypeExpr) : TypeReader (Option TypeExpr) := do
  if ← acceptSymbol .closeBracket then
    return none
  else
    let index ← type
    expect .closeBracket .indexedAccessEnd
    return some index

/-- A type with the brackets behind it, from the inside to the outside. -/
def access (base : TypeExpr) (index : Option TypeExpr) : TypeExpr :=
  match index with
  | none => .array base
  | some index => .indexed base index

/-- A primary and the brackets behind it. -/
def suffixed (type : TypeReader TypeExpr) (inner : Option Level) : TypeReader TypeExpr := do
  let base ← primary type inner
  let accesses ← separatedItems (isSymbol .openBracket) (accessBody type)
  return accesses.foldl access base

/-- Parts with a symbol between them, and one more in front if the writer likes. -/
def joinedBy (kind : Symbol) (join : List TypeExpr → TypeExpr) (part : TypeReader TypeExpr) :
    TypeReader TypeExpr := do
  let _ ← acceptSymbol kind
  return .joined join (← separated (isSymbol kind) part)

/-- Operands with `&` between them. -/
def intersection (operand : TypeReader TypeExpr) : TypeReader TypeExpr :=
  joinedBy .ampersand .intersection operand

/-- Intersections with `|` between them. -/
def union (operand : TypeReader TypeExpr) : TypeReader TypeExpr :=
  joinedBy .pipe .union (intersection operand)

def complete (inner : Level) : TypeReader TypeExpr := do
  let check ← union inner.operand
  if ← acceptWord "extends" then
    let bound ← union inner.operand
    expect .question .conditional
    let whenTrue ← inner.type
    expect .colon .conditional
    let whenFalse ← inner.type
    return .conditional check bound whenTrue whenFalse
  else
    return check

def level : (nesting : Nat) → Level
  | 0 =>
    let type : TypeReader TypeExpr := fail fun _ => .tooDeep
    ⟨type, suffixed type none⟩
  | nesting + 1 =>
    let inner := level nesting
    let type := complete inner
    ⟨type, suffixed type (some inner)⟩

end TypeReader

namespace TypeExpr

/-- The type expression that lexemes spell. -/
def ofLexemes? (lexemes : List Lexeme) : Except TypeTextError TypeExpr :=
  match (TypeReader.level greatestNesting).type.run lexemes with
  | .error error => .error error
  | .ok (type, []) => .ok type
  | .ok (_, head :: _) => .error (.trailingInput head.start)

/-- The type expression that a text spells. -/
def parse (text : String) : Except TypeTextError TypeExpr :=
  (Lexeme.ofTypeText text).bind ofLexemes?

end TypeExpr

end TypeGraph
