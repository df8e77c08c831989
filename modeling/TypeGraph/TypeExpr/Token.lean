import TypeGraph.Text.Position

/-!
# Tokens

The words of type text: names, string literals, numerals and the fixed symbols. `Lexeme.all?` cuts a
text into its tokens, each as long as possible, and passes over the blanks between them.
-/

namespace TypeGraph

/-- A symbol with one spelling. -/
inductive Symbol where
  | ellipsis
  | dot
  | comma
  | less
  | greater
  | openParen
  | closeParen
  | openBracket
  | closeBracket
  | openBrace
  | closeBrace
  | pipe
  | ampersand
  | colon
  | semicolon
  | question
  | minus
  | plus
  | arrow
  | equals
deriving DecidableEq, Repr

namespace Symbol

/-- How a symbol is written. -/
def spelling : Symbol → List Char
  | ellipsis => ['.', '.', '.']
  | dot => ['.']
  | comma => [',']
  | less => ['<']
  | greater => ['>']
  | openParen => ['(']
  | closeParen => [')']
  | openBracket => ['[']
  | closeBracket => [']']
  | openBrace => ['\x7b']
  | closeBrace => ['\x7d']
  | pipe => ['|']
  | ampersand => ['&']
  | colon => [':']
  | semicolon => [';']
  | question => ['?']
  | minus => ['-']
  | plus => ['+']
  | arrow => ['=', '>']
  | equals => ['=']

/-- The longest symbol in front of a text. -/
def scan? : List Char → Option Symbol
  | '.' :: '.' :: '.' :: _ => some ellipsis
  | '.' :: _ => some dot
  | ',' :: _ => some comma
  | '<' :: _ => some less
  | '>' :: _ => some greater
  | '(' :: _ => some openParen
  | ')' :: _ => some closeParen
  | '[' :: _ => some openBracket
  | ']' :: _ => some closeBracket
  | '\x7b' :: _ => some openBrace
  | '\x7d' :: _ => some closeBrace
  | '|' :: _ => some pipe
  | '&' :: _ => some ampersand
  | ':' :: _ => some colon
  | ';' :: _ => some semicolon
  | '?' :: _ => some question
  | '-' :: _ => some minus
  | '+' :: _ => some plus
  | '=' :: '>' :: _ => some arrow
  | '=' :: _ => some equals
  | _ => none

end Symbol

/-- A token. A string literal holds the text between its quotes as it is written there. -/
inductive Token where
  | name (text : String)
  | string (text : String)
  | number (numeral : String)
  | symbol (kind : Symbol)
deriving DecidableEq, Repr

namespace Token

/-- How messages speak of a token. -/
def description : Token → String
  | name text => "identifier '" ++ text ++ "'"
  | string text => "string '" ++ text ++ "'"
  | number numeral => "number " ++ numeral
  | symbol kind => "'" ++ String.ofList kind.spelling ++ "'"

/-- The text that a token carries besides its kind. -/
def payload? : Token → Option String
  | name text => some text
  | string text => some text
  | number numeral => some numeral
  | symbol _ => none

end Token

/-! ## Scanning -/

/-- A token in front of a text, the characters it takes, and what follows it. -/
structure Scan where
  token : Token
  spelling : List Char
  rest : List Char

namespace Scan

/-- Characters between tokens. -/
def isSkipped (c : Char) : Bool :=
  c == ' ' || c == '\t' || c == '\r' || c == '\n' || c == '\x0c'

/-- Characters that may begin a name. -/
def isNameStart (c : Char) : Bool :=
  c.isAlpha || c == '_' || c == '$'

/-- Characters that may follow the first one of a name. -/
def isNamePart (c : Char) : Bool :=
  c.isAlphanum || c == '_' || c == '$'

/-- The characters that quote a string literal. -/
def isQuote (c : Char) : Bool :=
  c == '\'' || c == '"' || c == '\x60'

/-- Whether a character may stand unescaped in a string literal; only a backquoted one may hold the
end of a line. -/
def standsIn (quote c : Char) : Bool :=
  c != '\\' && (c != '\n' || quote == '\x60')

/-- The characters up to a closing quote, and what follows it. A backslash takes the character
behind it along, which may not be the end of a line. -/
def untilQuote? (quote : Char) : List Char → Option (List Char × List Char)
  | [] => none
  | c :: rest =>
    if c = quote then some ([], rest)
    else if standsIn quote c then
      (untilQuote? quote rest).map fun (body, final) => (c :: body, final)
    else
      match c, rest with
      | '\\', escaped :: rest =>
        if escaped = '\n' then none
        else (untilQuote? quote rest).map fun (body, final) => (c :: escaped :: body, final)
      | _, _ => none

/-- The digits of a numeral, with a fraction if a point and a digit follow. -/
def numeral (text : List Char) : List Char × List Char :=
  let whole := text.takeWhile Char.isDigit
  match text.dropWhile Char.isDigit with
  | '.' :: first :: rest =>
    if first.isDigit then
      (whole ++ '.' :: (first :: rest).takeWhile Char.isDigit,
        (first :: rest).dropWhile Char.isDigit)
    else (whole, '.' :: first :: rest)
  | rest => (whole, rest)

/-- The longest token in front of a text. -/
def next? (text : List Char) : Option Scan :=
  match text with
  | [] => none
  | c :: rest =>
    if isNameStart c then
      let spelling := text.takeWhile isNamePart
      some ⟨.name (String.ofList spelling), spelling, text.dropWhile isNamePart⟩
    else if c.isDigit then
      let (spelling, rest) := numeral text
      some ⟨.number (String.ofList spelling), spelling, rest⟩
    else if isQuote c then
      (untilQuote? c rest).map fun (body, rest) =>
        ⟨.string (String.ofList body), c :: (body ++ [c]), rest⟩
    else
      (Symbol.scan? text).map fun symbol =>
        ⟨.symbol symbol, symbol.spelling, text.drop symbol.spelling.length⟩

theorem untilQuote?_append {quote : Char} {text body final : List Char}
    (success : untilQuote? quote text = some (body, final)) :
    text = body ++ quote :: final := by
  fun_induction untilQuote? quote text generalizing body with
  | case1 => cases success
  | case2 => cases success; simp_all
  | case3 c rest different stands inner =>
    simp only [Option.map_eq_some_iff, Prod.exists, Prod.mk.injEq] at success
    obtain ⟨tail, final', ran, rfl, rfl⟩ := success
    simp [inner ran]
  | case4 => cases success
  | case5 rest escaped notEnd different stands inner =>
    simp only [Option.map_eq_some_iff, Prod.exists, Prod.mk.injEq] at success
    obtain ⟨tail, final', ran, rfl, rfl⟩ := success
    simp [inner ran]
  | case6 => cases success

theorem numeral_append (text : List Char) : (numeral text).1 ++ (numeral text).2 = text := by
  unfold numeral
  split
  · next first rest dropped =>
    split
    · simp only [List.append_assoc, List.cons_append, List.takeWhile_append_dropWhile]
      rw [← dropped, List.takeWhile_append_dropWhile]
    · rw [← dropped, List.takeWhile_append_dropWhile]
  · exact List.takeWhile_append_dropWhile

theorem numeral_ne_nil {c : Char} (rest : List Char) (digit : c.isDigit = true) :
    (numeral (c :: rest)).1 ≠ [] := by
  unfold numeral
  split
  · split <;> simp [digit]
  · simp [digit]

theorem spelling_eq_of_scan? {text : List Char} {symbol : Symbol}
    (success : Symbol.scan? text = some symbol) :
    symbol.spelling ++ text.drop symbol.spelling.length = text ∧ symbol.spelling ≠ [] := by
  unfold Symbol.scan? at success
  split at success <;> cases success <;> simp [Symbol.spelling]

/-- The spelling of a token and what follows it make up the text. -/
theorem spelling_append_rest {text : List Char} {scan : Scan} (success : next? text = some scan) :
    scan.spelling ++ scan.rest = text := by
  unfold next? at success
  split at success
  · cases success
  · next c rest =>
    split at success
    · cases success
      exact List.takeWhile_append_dropWhile
    · split at success
      · cases success
        exact numeral_append (c :: rest)
      · split at success
        · simp only [Option.map_eq_some_iff, Prod.exists] at success
          obtain ⟨body, final, ran, rfl⟩ := success
          simp [untilQuote?_append ran]
        · simp only [Option.map_eq_some_iff] at success
          obtain ⟨symbol, ran, rfl⟩ := success
          exact (spelling_eq_of_scan? ran).1

/-- A token takes at least one character. -/
theorem spelling_ne_nil {text : List Char} {scan : Scan} (success : next? text = some scan) :
    scan.spelling ≠ [] := by
  unfold next? at success
  split at success
  · cases success
  · next c rest =>
    split at success
    · next start =>
      cases success
      have part : isNamePart c = true := by
        simp only [isNameStart, isNamePart, Char.isAlphanum, Bool.or_eq_true] at *
        rcases start with (alpha | underscore) | dollar <;> simp [*]
      simp [part]
    · split at success
      · next digit =>
        cases success
        exact numeral_ne_nil rest digit
      · split at success
        · simp only [Option.map_eq_some_iff, Prod.exists] at success
          obtain ⟨body, final, ran, rfl⟩ := success
          simp
        · simp only [Option.map_eq_some_iff] at success
          obtain ⟨symbol, ran, rfl⟩ := success
          exact (spelling_eq_of_scan? ran).2

theorem rest_shorter {text : List Char} {scan : Scan} (success : next? text = some scan) :
    scan.rest.length < text.length := by
  have whole := congrArg List.length (spelling_append_rest success)
  have positive := List.length_pos_iff.2 (spelling_ne_nil success)
  rw [List.length_append] at whole
  omega

end Scan

/-! ## Lexemes -/

/-- A token and the bytes it takes in its text. -/
structure Lexeme where
  token : Token
  start : Nat
  stop : Nat
deriving DecidableEq, Repr

namespace Lexeme

/-- The tokens of a text that begins at a byte position, or the position of the first character at
which no token begins. -/
def allFrom (position : Nat) (text : List Char) : Except Nat (List Lexeme) :=
  match text with
  | [] => .ok []
  | c :: rest =>
    if Scan.isSkipped c then allFrom (position + c.utf8Size) rest
    else
      match _ran : Scan.next? (c :: rest) with
      | none => .error position
      | some scan =>
        let stop := position + Text.byteLength scan.spelling
        (allFrom stop scan.rest).map (⟨scan.token, position, stop⟩ :: ·)
termination_by text.length
decreasing_by
  · simp
  · exact Scan.rest_shorter _ran

def all (text : String) : Except Nat (List Lexeme) :=
  allFrom 0 text.toList

end Lexeme

end TypeGraph
