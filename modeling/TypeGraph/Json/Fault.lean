import TypeGraph.Number.Layout
import TypeGraph.Text.Inspected
import TypeGraph.Text.Position

/-!
# Faults of JSON text

What is wrong with a text that is not the document that is wanted, at which position, and how that
is worded.
-/

namespace TypeGraph.Json

open TypeGraph.Number

/-- The parts of a text that end somewhere. -/
inductive Construct where
  | value
  | list
  | object
  | string
deriving DecidableEq, Repr

/-- The wording of a construct. -/
def Construct.phrase : Construct → String
  | value => "a value"
  | list => "a list"
  | object => "an object"
  | string => "a string"

/-- What there is where something else is wanted. -/
inductive Found where
  | null
  | truth (value : Bool)
  | integer (value : Int)
  | real (value : Binary64)
  | string (value : String)
  | list
  | object
deriving DecidableEq

/-- The wording of what is found. -/
def Found.phrase : Found → String
  | null => "null"
  | truth value => "boolean `" ++ (if value then "true" else "false") ++ "`"
  | integer value => "integer `" ++ toString value ++ "`"
  | real value => "floating point `" ++ jsonLayout.text value ++ "`"
  | string value => "string " ++ Text.inspected value
  | list => "sequence"
  | object => "map"

/-- What is wanted. -/
inductive Wanted where
  | null
  | truth
  | string
  | choice
  | list
  | map
  | record (name : String)
deriving DecidableEq, Repr

/-- The wording of what is wanted. -/
def Wanted.phrase : Wanted → String
  | null => "unit"
  | truth => "a boolean"
  | string => "a string"
  | choice => "variant identifier"
  | list => "a sequence"
  | map => "a map"
  | record name => "struct " ++ name

/-- What is wrong. -/
inductive Cause where
  | endInside (construct : Construct)
  | noColon
  | noCommaOrEnd (close : Char)
  | noWord
  | noValue
  | noName
  | commaAtEnd
  | textBehind
  | controlCharacter
  | escape
  | escapeEnd
  | surrogate
  | numeral
  | numberRange
  | tooDeep
  | kind (found : Found) (wanted : Wanted)
  | missingField (name : String)
  | repeatedField (name : String)
  | tooShort (length : Nat) (record : String) (fields : Nat)
  | tooLong (length : Nat)
  | unknownChoice (name : String) (choices : List String)
deriving DecidableEq

def Cause.phrase : Cause → String
  | endInside construct => "EOF while parsing " ++ construct.phrase
  | noColon => "expected `:`"
  | noCommaOrEnd close => "expected `,` or `" ++ close.toString ++ "`"
  | noWord => "expected ident"
  | noValue => "expected value"
  | noName => "key must be a string"
  | commaAtEnd => "trailing comma"
  | textBehind => "trailing characters"
  | controlCharacter => "control character (\\u0000-\\u001F) found while parsing a string"
  | escape => "invalid escape"
  | escapeEnd => "unexpected end of hex escape"
  | surrogate => "lone leading surrogate in hex escape"
  | numeral => "invalid number"
  | numberRange => "number out of range"
  | tooDeep => "recursion limit exceeded"
  | kind found wanted => "invalid type: " ++ found.phrase ++ ", expected " ++ wanted.phrase
  | missingField name => "missing field `" ++ name ++ "`"
  | repeatedField name => "duplicate field `" ++ name ++ "`"
  | tooShort length record fields =>
    "invalid length " ++ toString length ++ ", expected " ++ (Wanted.record record).phrase
      ++ " with " ++ toString fields ++ " elements"
  | tooLong length => "invalid length " ++ toString length ++ ", expected fewer elements in array"
  | unknownChoice name choices =>
    "unknown variant `" ++ name ++ "`, expected one of "
      ++ ", ".intercalate (choices.map fun choice => "`" ++ choice ++ "`")

/-- What is wrong with a text, and where. -/
structure Fault where
  cause : Cause
  position : Text.Position
deriving DecidableEq

/-- The wording of a fault. -/
def Fault.message (fault : Fault) : String :=
  fault.cause.phrase ++ " at line " ++ toString fault.position.line ++ " column "
    ++ toString fault.position.column

/-- Where a reader gives up: the cause, and the bytes of the text that are left. -/
structure Stop where
  cause : Cause
  bytesLeft : Nat
deriving DecidableEq

/-- The fault of a text at which a reader gives up. -/
def Fault.ofStop (text : String) (stop : Stop) : Fault :=
  ⟨stop.cause, .behind (text.utf8ByteSize - stop.bytesLeft) text⟩

end TypeGraph.Json
