import TypeGraph.Text.Identifier

/-!
# Quoted text

Text between quotes, on one line. The quote in use and the backslash get a backslash in front of
them, a control character is written by its letter or by its code point, and every other character
stands for itself.
-/

namespace TypeGraph.Text

/-- The letter that names a control character after a backslash. -/
def controlLetter? (c : Char) : Option Char :=
  match c.toNat with
  | 0x08 => some 'b'
  | 0x09 => some 't'
  | 0x0A => some 'n'
  | 0x0C => some 'f'
  | 0x0D => some 'r'
  | _ => none

/-- A code point below 256 as `\u` and four digits. -/
def unicodeEscape (code : Nat) : List Char :=
  ['\\', 'u', '0', '0', Nat.digitChar (code / 16), Nat.digitChar (code % 16)]

/-- What is written for one character between two copies of `quote`. -/
def escapeIn (quote c : Char) : List Char :=
  if c = quote ∨ c = '\\' then ['\\', c]
  else if c.toNat < 0x20 then
    match controlLetter? c with
    | some letter => ['\\', letter]
    | none => unicodeEscape c.toNat
  else [c]

/-- The characters between two copies of `quote`. -/
def quoteChars (quote : Char) (text : List Char) : List Char :=
  quote :: (text.flatMap (escapeIn quote) ++ [quote])

/-- A text in double quotes, as JSON writes it. -/
def doubleQuoted (text : String) : String :=
  String.ofList (quoteChars '"' text.toList)

/-- A text in single quotes, the form of node and slot names in emitted types. -/
def singleQuoted (text : String) : String :=
  String.ofList (quoteChars '\'' text.toList)

/-- A property key: an identifier stands for itself, any other text is double-quoted. -/
def propertyKey (key : String) : String :=
  if isIdentifier key then key else doubleQuoted key

end TypeGraph.Text
