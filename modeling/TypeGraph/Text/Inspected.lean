import TypeGraph.Text.Visible

/-!
# Inspected text

Text in double quotes for a reader who has to tell every character apart: what cannot be seen is
written by its code point.
-/

namespace TypeGraph.Text

/-- A code point in braces. -/
def codePointEscape (c : Char) : List Char :=
  ['\\', 'u', '\x7b'] ++ Nat.toDigits 16 c.toNat ++ ['\x7d']

/-- What is written for a character. -/
def inspectedChar (c : Char) : List Char :=
  match c with
  | '\x00' => ['\\', '0']
  | '\t' => ['\\', 't']
  | '\n' => ['\\', 'n']
  | '\r' => ['\\', 'r']
  | '"' => ['\\', '"']
  | '\\' => ['\\', '\\']
  | c => if isVisible c then [c] else codePointEscape c

/-- A text in quotes. -/
def inspected (text : String) : String :=
  String.ofList ('"' :: (text.toList.flatMap inspectedChar ++ ['"']))

end TypeGraph.Text
