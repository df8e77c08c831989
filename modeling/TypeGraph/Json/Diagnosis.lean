import TypeGraph.Json.Parser

/-!
# Diagnosis of JSON text

Why a text is not the document that is wanted. What is wanted is described by a reader that goes
over the text until something is wrong and gives no value: what is found first counts, and parts of
which nothing is wanted are held to the grammar alone.
-/

namespace TypeGraph.Json.Diagnosis

open Reader TextReader

/-! ## Strings and numbers that have to have a value -/

/-- The character that a piece of a string gives. -/
def characterFrom (c : Char) : TextReader Char := do
  if Piece.isControl c then
    stop .controlCharacter
  else
    match ← pieceFrom c with
    | .char c => return c
    | .code unit =>
      if Piece.isLowSurrogate unit then
        stop .surrogate
      else if Piece.isHighSurrogate unit then
        expect '\\' (.endInside .string) .escapeEnd
        expect 'u' (.endInside .string) .escapeEnd
        let low ← hexUnit
        if Piece.isLowSurrogate low then return Piece.pair unit low else stop .surrogate
      else
        return Char.ofNat unit

/-- The text of the rest of a string, after its opening quote. -/
def stringText : TextReader String := do
  return String.ofList (← untilQuote characterFrom)

/-- The digits behind the first one with which a number exceeds the greatest exponent. -/
def digitsPastGreatest (value : Nat) : List Char → Nat
  | [] => 0
  | digit :: rest =>
    let next := value * 10 + Numeral.digitValue digit
    if Numeral.greatestExponent < next then rest.length else digitsPastGreatest next rest

/-- The value of a numeral. One whose exponent leaves no hope is read no further than that. -/
def number : TextReader Number := do
  let numeral ← numeral (.endInside .value)
  match numeral.value? with
  | some number => return number
  | none =>
    let unread := (numeral.exponent.map fun exponent => digitsPastGreatest 0 exponent.2).getD 0
    fail fun rest => ⟨.numberRange, Text.byteLength rest + unread⟩

/-! ## Parts -/

/-- The part in front, found where another one is wanted. -/
def misfit (wanted : Wanted) : TextReader Unit := do
  match ← remaining with
  | [] => stop (.endInside .value)
  | 'n' :: _ => word ['n', 'u', 'l', 'l']; stop (.kind .null wanted)
  | 't' :: _ => word ['t', 'r', 'u', 'e']; stop (.kind (.truth true) wanted)
  | 'f' :: _ => word ['f', 'a', 'l', 's', 'e']; stop (.kind (.truth false) wanted)
  | '"' :: _ => skip 1; stop (.kind (.string (← stringText)) wanted)
  | '[' :: _ => stop (.kind .list wanted)
  | '\x7b' :: _ => stop (.kind .object wanted)
  | c :: _ =>
    if beginsNumeral c then
      match ← number with
      | .integer value _ => stop (.kind (.integer value) wanted)
      | .real value => stop (.kind (.real value) wanted)
    else
      stopPast .noValue

def string : TextReader Unit := do
  blanks
  if ← accept (· == '"') then
    let _ ← stringText
  else
    misfit .string

/-- A part that may be null. -/
def nullable (part : TextReader Unit) : TextReader Unit := do
  blanks
  match ← remaining with
  | 'n' :: _ => word ['n', 'u', 'l', 'l']
  | _ => part

/-- A truth value. -/
def truth : TextReader Unit := do
  blanks
  match ← remaining with
  | 't' :: _ => word ['t', 'r', 'u', 'e']
  | 'f' :: _ => word ['f', 'a', 'l', 's', 'e']
  | _ => misfit .truth

def null : TextReader Unit := do
  blanks
  match ← remaining with
  | 'n' :: _ => word ['n', 'u', 'l', 'l']
  | _ => misfit .null

/-- A colon behind a name. -/
def colon : TextReader Unit := do
  blanks
  expect ':' (.endInside .object) .noColon

/-- One of several names. -/
def chosenName (choices : List String) : TextReader Unit := do
  blanks
  if ← accept (· == '"') then
    let name ← stringText
    unless choices.contains name do stop (.unknownChoice name choices)
  else
    misfit .choice

/-- One of several names, as a string or as the name of the one member of an object, which is
null. -/
def choice (choices : List String) : TextReader Unit := do
  blanks
  if ← accept (· == '\x7b') then
    chosenName choices
    colon
    null
    blanks
    unless ← accept (· == '\x7d') do
      if (← remaining).isEmpty then stop (.endInside .object) else stop .noValue
  else if ← next (· == '"') then
    chosenName choices
  else
    refuse (.endInside .value) .noValue

/-- A part that a comma promises: the closing character may not stand in its place. -/
def promised {α : Type} (close : Char) (part : TextReader α) : TextReader α := do
  if ← next (· == close) then stopPast .commaAtEnd else part

/-- An array of parts of one kind. -/
def list (item : TextReader Unit) : TextReader Unit := do
  blanks
  if ← accept (· == '[') then
    let _ ← listed ']' .list (promised ']' item)
  else
    misfit .list

/-- An object of parts of one kind under any names. -/
def map (part : TextReader Unit) : TextReader Unit := do
  blanks
  if ← accept (· == '\x7b') then
    let _ ← listed '\x7d' .object (promised '\x7d' do
      expect '"' (.endInside .value) .noName
      let _ ← stringText
      colon
      part)
  else
    misfit .map

/-! ## Parts of any kind -/

/-- A part of any kind, with a reader for arrays and objects. -/
def anyKind (nested : TextReader Unit) : TextReader Unit := do
  blanks
  match ← remaining with
  | [] => stop (.endInside .value)
  | 'n' :: _ => word ['n', 'u', 'l', 'l']
  | 't' :: _ => word ['t', 'r', 'u', 'e']
  | 'f' :: _ => word ['f', 'a', 'l', 's', 'e']
  | '"' :: _ =>
    skip 1
    let _ ← stringText
  | '[' :: _ | '\x7b' :: _ => nested
  | c :: _ =>
    if beginsNumeral c then
      let _ ← number
    else
      stopPast .noValue

/-- A part of any kind with at most `depth` levels of arrays and objects. -/
def value : (depth : Nat) → TextReader Unit
  | 0 => anyKind (stopPast .tooDeep)
  | depth + 1 => anyKind do
    if ← next (· == '[') then list (value depth) else map (value depth)

/-! ## Records -/

/-- A field of a record: what is wanted under its name, or under another one that it may be given
by, and whether it has to be there. -/
structure Field (α : Type) where
  name : String
  others : List String
  part : α
  required : Bool

namespace Field

variable {α : Type}

def needed (name : String) (part : α) (others : List String := []) : Field α :=
  ⟨name, others, part, true⟩

/-- A field that may be left out. -/
def spare (name : String) (part : α) (others : List String := []) : Field α :=
  ⟨name, others, part, false⟩

/-- The field that a name gives. -/
def named? (fields : List (Field α)) (name : String) : Option (Field α) :=
  fields.find? fun field => field.name == name || field.others.contains name

/-- The first field that has to be there and is not. -/
def missing? (fields : List (Field α)) (given : List String) : Option (Field α) :=
  fields.find? fun field => field.required && !given.contains field.name

end Field

/-- The rest of a member after the opening quote of its name, and the names of the fields that are
given by then. -/
def memberBody (fields : List (Field (TextReader Unit))) (given : List String) :
    TextReader (List String) := do
  let name ← stringText
  match Field.named? fields name with
  | none =>
    colon
    blanks
    let _ ← Written.anyPart
    return given
  | some field =>
    if given.contains field.name then
      blanks
      let _ ← accept (· == '\x7d')
      stop (.repeatedField field.name)
    else
      colon
      field.part
      return field.name :: given

/-- A member, with blanks around it. -/
def member (fields : List (Field (TextReader Unit))) (atEnd : Cause) (given : List String) :
    TextReader (List String) :=
  padded (promised '\x7d' do
    expect '"' atEnd .noName
    memberBody fields given)

/-- The names of the fields that are given in the rest of an object, after its opening brace. -/
def givenFields (fields : List (Field (TextReader Unit))) : TextReader (List String) := do
  blanks
  if ← accept (· == '\x7d') then
    return []
  else
    let first ← member fields (.endInside .object) []
    let given ← foldHeaded (· == ',') (fun given _ => member fields (.endInside .value) given) first
    expect '\x7d' (.endInside .object) (.noCommaOrEnd '\x7d')
    return given

/-- The rest of an object, after its opening brace. -/
def objectBody (fields : List (Field (TextReader Unit))) : TextReader Unit := do
  let given ← givenFields fields
  match Field.missing? fields given with
  | none => pure ()
  | some field => stop (.missingField field.name)

/-- The end of an array that has an item for every field. -/
def arrayEnd : TextReader Unit := do
  blanks
  unless ← accept (· == ']') do
    if ← accept (· == ',') then
      blanks
      if ← next (· == ']') then stopPast .commaAtEnd else stopPast .textBehind
    else
      refuse (.endInside .list) .textBehind

/-- Whether there is an item after `place` others. It is then in front. -/
def nextItem (place : Nat) : TextReader Bool := do
  blanks
  if (← remaining).isEmpty then
    stop (.endInside .list)
  else if ← next (· == ']') then
    return false
  else if place = 0 then
    return true
  else
    expect ',' (.endInside .list) (.noCommaOrEnd ']')
    blanks
    if (← remaining).isEmpty then stop (.endInside .value) else promised ']' (pure true)

/-- The rest of an array of the fields of a record, with items for `place` of them already there. -/
def arrayBody (record : String) (place : Nat) : List (Field (TextReader Unit)) → TextReader Unit
  | [] => arrayEnd
  | field :: rest => do
    if ← nextItem place then
      field.part
      arrayBody record (place + 1) rest
    else if field.required then
      skip 1
      stop (.tooShort place record (place + 1 + rest.length))
    else
      arrayBody record (place + 1) rest

/-- A record, as an object or as an array of its fields. -/
def record (name : String) (fields : List (Field (TextReader Unit))) : TextReader Unit := do
  blanks
  if ← accept (· == '[') then
    arrayBody name 0 fields
  else if ← accept (· == '\x7b') then
    objectBody fields
  else
    misfit (.record name)

/-- What is wrong with a text, if anything is. -/
def fault? (wanted : TextReader Unit) (text : String) : Option Fault :=
  match (document wanted).run text.toList with
  | .ok _ => none
  | .error stop => some (.ofStop text stop)

end TypeGraph.Json.Diagnosis
