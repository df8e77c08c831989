/-!
# Identifiers

An identifier is an ASCII letter or an underscore, followed by letters, digits and underscores.
`sanitize` turns any text into one: what is not a letter or a digit becomes an underscore, and
underscores neither repeat nor end the result.
-/

namespace TypeGraph.Text

/-- Characters that may begin an identifier. -/
def isIdentifierStart (c : Char) : Bool :=
  c.isAlpha || c == '_'

/-- Characters that may follow the first one. -/
def isIdentifierPart (c : Char) : Bool :=
  c.isAlphanum || c == '_'

/-- Whether the characters spell an identifier. -/
def isIdentifierChars : List Char → Bool
  | [] => false
  | first :: rest => isIdentifierStart first && rest.all isIdentifierPart

def isIdentifier (text : String) : Bool :=
  isIdentifierChars text.toList

/-- Letters and digits stand for themselves, any other character for an underscore. -/
def underscored (c : Char) : Char :=
  if c.isAlphanum then c else '_'

/-- One underscore for each run of underscores. -/
def squeeze (text : List Char) : List Char :=
  text.foldr (fun c rest => if c = '_' ∧ rest.head? = some '_' then rest else c :: rest) []

/-- The text without the underscores at its end. -/
def dropFinalUnderscores (text : List Char) : List Char :=
  text.foldr (fun c rest => if c = '_' ∧ rest = [] then [] else c :: rest) []

/-- An underscore in front of a leading digit. -/
def guardDigit : List Char → List Char
  | [] => []
  | first :: rest => if first.isDigit then '_' :: first :: rest else first :: rest

/-- The name of a text in which no letter and no digit occurs. -/
def fallbackIdentifier : List Char :=
  "node".toList

/-- The identifier made of the characters of a text. -/
def sanitizeChars (text : List Char) : List Char :=
  match dropFinalUnderscores (guardDigit (squeeze (text.map underscored))) with
  | [] => fallbackIdentifier
  | name => name

def sanitize (text : String) : String :=
  String.ofList (sanitizeChars text.toList)

end TypeGraph.Text
