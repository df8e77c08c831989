import TypeGraph.Json.Fault
import TypeGraph.Json.Written
import TypeGraph.Reader

/-!
# Reading JSON text

The grammar of JSON text: no comments, no comma after a last item, nothing before or after the
document but blanks, and no control characters inside strings.
-/

namespace TypeGraph.Json

/-- A reader of characters. -/
abbrev TextReader :=
  Reader Stop Char

namespace TextReader

open Reader

variable {α : Type}

/-- Gives up in front of the next character. -/
def stop (cause : Cause) : TextReader α :=
  fail fun rest => ⟨cause, Text.byteLength rest⟩

/-- Gives up because of the next character, of which the first byte is passed over. -/
def stopPast (cause : Cause) : TextReader α :=
  fail fun rest => ⟨cause, Text.byteLength rest - 1⟩

/-- Gives up for one cause at the end of the text, and for another one elsewhere. -/
def refuse (atEnd elsewhere : Cause) : TextReader α := do
  match ← remaining with
  | [] => stop atEnd
  | _ => stopPast elsewhere

/-- Passes over one given character. -/
def expect (c : Char) (atEnd elsewhere : Cause) : TextReader Unit := do
  unless ← accept (· == c) do refuse atEnd elsewhere

/-- Passes over the characters of a word. -/
def word : List Char → TextReader Unit
  | [] => pure ()
  | c :: rest => do
    expect c (.endInside .value) .noWord
    word rest

/-- Characters between the parts of a document. -/
def isJsonBlank (c : Char) : Bool :=
  c == ' ' || c == '\t' || c == '\n' || c == '\r'

/-- Passes over blanks. -/
def blanks : TextReader Unit := do
  let _ ← takeWhile isJsonBlank

/-- A part with blanks around it. -/
def padded (part : TextReader α) : TextReader α := do
  blanks
  let value ← part
  blanks
  return value

/-- Parts with commas between them, up to a closing character. -/
def listed (close : Char) (construct : Construct) (part : TextReader α) : TextReader (List α) := do
  blanks
  if ← accept (· == close) then
    return []
  else if (← remaining).isEmpty then
    stop (.endInside construct)
  else
    let parts ← separated (· == ',') (padded part)
    expect close (.endInside construct) (.noCommaOrEnd close)
    return parts

/-- One part and nothing else but blanks. -/
def document (part : TextReader α) : TextReader α := do
  let value ← padded part
  unless (← remaining).isEmpty do stopPast .textBehind
  return value

/-! ## Numerals -/

/-- At least one digit. -/
def digits (atEnd : Cause) : TextReader (List Char) := do
  let run ← takeWhile Char.isDigit
  if run = [] then refuse atEnd .numeral else return run

/-- Digits of which the first is a zero only if it is the only one. -/
def wholeDigits (atEnd : Cause) : TextReader (List Char) := do
  if ← accept (· == '0') then
    if ← next Char.isDigit then stopPast .numeral else return ['0']
  else
    digits atEnd

/-- A numeral: no digit follows a leading zero, and a point or an exponent mark is followed by a
digit. -/
def numeral (atEnd : Cause) : TextReader Numeral := do
  let negative ← accept (· == '-')
  let whole ← wholeDigits atEnd
  let fraction ← if ← accept (· == '.') then some <$> digits atEnd else pure none
  if ← accept (fun c => c == 'e' || c == 'E') then
    let minus ← accept (· == '-')
    unless minus do
      let _ ← accept (· == '+')
    let exponent ← digits atEnd
    return ⟨negative, whole, fraction, some (minus, exponent)⟩
  else
    return ⟨negative, whole, fraction, none⟩

def beginsNumeral (c : Char) : Bool :=
  c == '-' || c.isDigit

end TextReader

/-! ## Strings -/

/-- A part of a string: a character, or the 16 bits that a `\u` escape gives. -/
inductive Piece where
  | char (c : Char)
  | code (unit : Nat)
deriving DecidableEq

namespace Piece

/-- The value of a hexadecimal digit. -/
def hexValue? (c : Char) : Option Nat :=
  if c.isDigit then some (c.toNat - '0'.toNat)
  else if 'a' ≤ c ∧ c ≤ 'f' then some (c.toNat - 'a'.toNat + 10)
  else if 'A' ≤ c ∧ c ≤ 'F' then some (c.toNat - 'A'.toNat + 10)
  else none

/-- The value of hexadecimal digits. -/
def hexNumber? (digits : List Char) : Option Nat :=
  digits.foldlM (fun value digit => (hexValue? digit).map (value * 16 + ·)) 0

/-- The character that a letter after a backslash stands for. -/
def escaped? : Char → Option Char
  | '"' => some '"'
  | '\\' => some '\\'
  | '/' => some '/'
  | 'b' => some '\x08'
  | 'f' => some '\x0c'
  | 'n' => some '\n'
  | 'r' => some '\r'
  | 't' => some '\t'
  | _ => none

/-- The characters that a string may not hold as they are. -/
def isControl (c : Char) : Bool :=
  c.toNat < 0x20

/-- The first halves of surrogate pairs. -/
def isHighSurrogate (unit : Nat) : Bool :=
  0xD800 ≤ unit && unit < 0xDC00

/-- The second halves of surrogate pairs. -/
def isLowSurrogate (unit : Nat) : Bool :=
  0xDC00 ≤ unit && unit < 0xE000

/-- The character of a surrogate pair. -/
def pair (high low : Nat) : Char :=
  Char.ofNat (0x10000 + (high - 0xD800) * 0x400 + (low - 0xDC00))

/-- The text of pieces; a surrogate without its other half stands for nothing. -/
def text? : List Piece → Option (List Char)
  | [] => some []
  | char c :: rest => (text? rest).map (c :: ·)
  | [code unit] =>
    if isHighSurrogate unit || isLowSurrogate unit then none else some [Char.ofNat unit]
  | code unit :: code unit' :: rest =>
    if isHighSurrogate unit then
      if isLowSurrogate unit' then (text? rest).map (pair unit unit' :: ·) else none
    else if isLowSurrogate unit then none
    else (text? (code unit' :: rest)).map (Char.ofNat unit :: ·)
  | code unit :: char c :: rest =>
    if isHighSurrogate unit || isLowSurrogate unit then none
    else (text? (char c :: rest)).map (Char.ofNat unit :: ·)

end Piece

namespace TextReader

open Reader

/-- The value of the four hexadecimal digits of an escape. -/
def hexUnit : TextReader Nat := do
  let rest ← remaining
  if Text.byteLength rest < 4 then
    fail fun _ => ⟨.endInside .string, 0⟩
  else
    match Piece.hexNumber? (rest.take 4) with
    | some unit =>
      skip 4
      return unit
    | none => fail fun rest => ⟨.escape, Text.byteLength rest - 4⟩

/-- The piece that a character begins. -/
def pieceFrom (c : Char) : TextReader Piece := do
  if c = '\\' then
    if ← accept (· == 'u') then
      return .code (← hexUnit)
    else
      match (← remaining).head?.bind Piece.escaped? with
      | some c =>
        skip 1
        return .char c
      | none => refuse (.endInside .string) .escape
  else if Piece.isControl c then
    fail fun rest => ⟨.controlCharacter, Text.byteLength (c :: rest)⟩
  else
    return .char c

/-- The parts of a string up to its closing quote, which is passed over. -/
def untilQuote {α : Type} (partFrom : Char → TextReader α) : TextReader (List α) := do
  let reversed ← foldHeaded (· != '"') (fun parts c => (· :: parts) <$> partFrom c) []
  expect '"' (.endInside .string) (.endInside .string)
  return reversed.reverse

/-- The rest of a string, after its opening quote. A string with a surrogate that has no other half
stands for nothing. -/
def stringBody : TextReader (Option String) := do
  return (Piece.text? (← untilQuote pieceFrom)).map String.ofList

end TextReader

/-! ## Documents -/

namespace Written

open Reader TextReader

/-- A member of an object. -/
def member (part : TextReader Written) : TextReader (Option String × Written) := do
  expect '"' (.endInside .object) .noName
  let name ← stringBody
  blanks
  expect ':' (.endInside .object) .noColon
  blanks
  let value ← part
  return (name, value)

/-- A part of a document with fewer than `depth` levels. -/
def part : (depth : Nat) → TextReader Written
  | 0 => stopPast .noValue
  | depth + 1 => do
    match ← remaining with
    | [] => stop (.endInside .value)
    | 'n' :: _ => word ['n', 'u', 'l', 'l']; return null
    | 't' :: _ => word ['t', 'r', 'u', 'e']; return bool true
    | 'f' :: _ => word ['f', 'a', 'l', 's', 'e']; return bool false
    | '"' :: _ => skip 1; return string (← stringBody)
    | '[' :: _ => skip 1; return array (← listed ']' .list (part depth))
    | '\x7b' :: _ => skip 1; return object (← listed '\x7d' .object (member (part depth)))
    | c :: _ =>
      if beginsNumeral c then return number (← numeral .numeral).value? else stopPast .noValue

/-- The part of a document that is in front. Each level of it takes a character of its own, so the
length of the text bounds the levels. -/
def anyPart : TextReader Written := do
  part ((← remaining).length + 1)

/-- The document that a text spells. -/
def read? (text : String) : Option Written :=
  (document anyPart).value? text.toList

end Written

def Value.read? (text : String) : Option Value :=
  (Written.read? text).bind Written.value?

end TypeGraph.Json
