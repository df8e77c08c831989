import TypeGraph.Proofs.Json.Texts
import TypeGraph.Proofs.Source.Quoted
import TypeGraph.Proofs.Text.Bytes

/-!
# Quoted texts read back

A quoted text is one token, from its first byte to its last, and whoever undoes the escapes between
its quotes has the text again. A key that is written bare is one name.
-/

namespace TypeGraph

open Text

/-! ## Escapes of a script -/

namespace Text

open Json (Piece)

/-- The character that a letter after a backslash stands for in a script. -/
def scriptEscape? : Char → Option Char
  | '\\' => some '\\'
  | '\'' => some '\''
  | 'b' => some '\x08'
  | 'f' => some '\x0c'
  | 'n' => some '\n'
  | 'r' => some '\r'
  | 't' => some '\t'
  | _ => none

/-- The characters and the code units that stand between the quotes of a script. No other letter may
follow a backslash. -/
def scriptPieces? : List Char → Option (List Piece)
  | [] => some []
  | '\\' :: 'u' :: first :: second :: third :: fourth :: rest =>
    match Piece.hexNumber? [first, second, third, fourth] with
    | some unit => (scriptPieces? rest).map (.code unit :: ·)
    | none => none
  | '\\' :: letter :: rest =>
    match scriptEscape? letter with
    | some c => (scriptPieces? rest).map (.char c :: ·)
    | none => none
  | c :: rest => if c = '\\' then none else (scriptPieces? rest).map (.char c :: ·)

/-- What a script reads between two quotes. -/
def scriptUnescape? (text : String) : Option String :=
  ((scriptPieces? text.toList).bind Piece.text?).map String.ofList

theorem scriptPieces?_escaped
    {letter c : Char} (escaped : scriptEscape? letter = some c) (rest : List Char) :
    scriptPieces? ('\\' :: letter :: rest) = (scriptPieces? rest).map (.char c :: ·) := by
  have notCode : letter ≠ 'u' := by
    intro same
    rw [same] at escaped
    cases escaped
  rw [scriptPieces?.eq_3 _ _ fun _ _ _ _ _ same _ => notCode same, escaped]

theorem scriptPieces?_plain {c : Char} (plain : c ≠ '\\') (rest : List Char) :
    scriptPieces? (c :: rest) = (scriptPieces? rest).map (.char c :: ·) := by
  rw [scriptPieces?.eq_4 _ _ (fun _ _ _ _ _ same _ => plain same) fun _ _ same _ => plain same,
    if_neg plain]

theorem scriptEscape?_controlLetter
    {c letter : Char} (named : controlLetter? c = some letter) : scriptEscape? letter = some c := by
  have same := (Piece.escaped?_controlLetter named).2
  unfold controlLetter? at named
  split at named <;> cases named <;> exact same

/-- The escaped form of a character is read as one piece. -/
theorem scriptPieces?_escapeIn (c : Char) (rest : List Char) :
    scriptPieces? (escapeIn '\'' c ++ rest) =
      (scriptPieces? rest).map (Piece.ofChar c :: ·) := by
  unfold escapeIn Piece.ofChar
  split
  · next marked =>
    rw [List.cons_append, List.singleton_append]
    rcases marked with rfl | rfl
    · exact scriptPieces?_escaped rfl rest
    · exact scriptPieces?_escaped rfl rest
  · next plain =>
    rw [not_or] at plain
    split
    · next control =>
      split
      · next letter named =>
        rw [named, if_neg fun code => Bool.false_ne_true code.2, List.cons_append,
          List.singleton_append]
        exact scriptPieces?_escaped (scriptEscape?_controlLetter named) rest
      · next nameless =>
        have unit := Piece.hexNumber?_unicodeEscape control
        rw [nameless, if_pos ⟨control, rfl⟩, unicodeEscape]
        change scriptPieces? ('\\' :: 'u' :: '0' :: '0' :: Nat.digitChar (c.toNat / 16) ::
          Nat.digitChar (c.toNat % 16) :: rest) = _
        rw [scriptPieces?, unit]
    · next printable =>
      rw [if_neg fun code => printable code.1]
      exact scriptPieces?_plain plain.2 rest

theorem scriptPieces?_flatMap (text : List Char) :
    scriptPieces? (text.flatMap (escapeIn '\'')) = some (text.map Piece.ofChar) := by
  induction text with
  | nil =>
      rfl
  | cons c text inner =>
      rw [List.flatMap_cons, scriptPieces?_escapeIn, inner, List.map_cons, Option.map_some]

theorem scriptUnescape?_escaped (text : String) :
    scriptUnescape? (escaped '\'' text) = some text := by
  rw [scriptUnescape?, escaped, String.toList_ofList, scriptPieces?_flatMap, Option.bind_some,
    Piece.text?_map_ofChar, Option.map_some, String.ofList_toList]

/-! ## Other quotes around the same escapes -/

/-- A text with one character for each pair of two that follow each other, from the left. -/
def replacePairs (first second single : Char) : List Char → List Char
  | [] => []
  | [c] => [c]
  | c :: next :: rest =>
    if c = first ∧ next = second then single :: replacePairs first second single rest
    else c :: replacePairs first second single (next :: rest)

/-- A single quote with a backslash in front of it, any other character as it is. -/
def guardQuote (c : Char) : List Char :=
  if c = '\'' then ['\\', '\''] else [c]

/-- A double-quoted text in single quotes: double quotes inside lose their backslashes, and then
single quotes get theirs. -/
def requoted (quoted : String) : String :=
  String.ofList ('\'' ::
    ((replacePairs '\\' '"' '"' quoted.toList.tail.dropLast).flatMap guardQuote ++ ['\'']))

theorem replacePairs_append
    {first second single : Char} {text rest : List Char}
    (absent : second ∉ text)
    (apart : rest.head? ≠ some second) :
    replacePairs first second single (text ++ rest) =
      text ++ replacePairs first second single rest := by
  induction text with
  | nil =>
      rfl
  | cons c text inner =>
      rw [List.mem_cons, not_or] at absent
      have behind : (text ++ rest).head? ≠ some second := by
        cases text with
        | nil =>
            exact apart
        | cons next text =>
            intro same
            exact absent.2 (List.mem_cons.mpr (Or.inl (Option.some.inj same).symm))
      rw [List.cons_append, List.cons_append, ← inner absent.2]
      cases after : text ++ rest with
      | nil =>
          rfl
      | cons next others =>
          rw [after] at behind
          rw [replacePairs]
          apply if_neg
          intro both
          exact behind (congrArg some both.2)

theorem flatMap_guardQuote_of_notMem {text : List Char} (absent : '\'' ∉ text) :
    text.flatMap guardQuote = text := by
  have same : text.flatMap guardQuote = text.flatMap fun c => [c] := by
    apply List.flatMap_congr
    intro c member
    apply if_neg
    intro single
    exact absent (single ▸ member)
  rw [same, List.flatMap_singleton']

/-- A quote is only in the escaped form of itself. -/
theorem notMem_escapeIn
    {quote other c : Char} (quotes : QuotesText other) (different : c ≠ other) :
    other ∉ escapeIn quote c := by
  have backslash : other ≠ '\\' := by
    rcases quotes with rfl | rfl <;> decide
  unfold escapeIn
  split
  · simp [backslash, different.symm]
  · split
    · split
      · next letter named =>
        have notLetter : other ≠ letter := by
          unfold controlLetter? at named
          split at named <;> cases named <;> rcases quotes with rfl | rfl <;> decide
        simp [backslash, notLetter]
      · next control _ _ =>
        have digits : ∀ code < 0x20, other ∉ unicodeEscape code := by
          rcases quotes with rfl | rfl <;> decide
        exact digits _ control
    · simp [different.symm]

theorem flatMap_guardQuote_escapeIn {c : Char} (different : c ≠ '"') :
    (escapeIn '"' c).flatMap guardQuote = escapeIn '\'' c := by
  by_cases single : c = '\''
  · subst single
    rfl
  · have alike : escapeIn '"' c = escapeIn '\'' c := by
      rw [escapeIn, escapeIn]
      simp [different, single]
    rw [alike, flatMap_guardQuote_of_notMem (notMem_escapeIn (Or.inr rfl) single)]

/-- No escaped form begins with a double quote, so that a backslash at the end of one stays in front
of the next. -/
theorem head?_flatMap_escapeIn (text : List Char) :
    (text.flatMap (escapeIn '"')).head? ≠ some '"' := by
  cases text with
  | nil =>
      exact nofun
  | cons c text =>
      obtain ⟨head, tail, shape, notQuote, _⟩ := Json.TextReader.run_pieceFrom_escapeIn c []
      rw [List.flatMap_cons, shape]
      intro same
      exact notQuote (Option.some.inj same)

theorem replacePairs_flatMap (text : List Char) :
    (replacePairs '\\' '"' '"' (text.flatMap (escapeIn '"'))).flatMap guardQuote =
      text.flatMap (escapeIn '\'') := by
  induction text with
  | nil =>
      rfl
  | cons c text inner =>
      rw [List.flatMap_cons, List.flatMap_cons]
      by_cases double : c = '"'
      · subst double
        rw [← inner]
        rfl
      · rw [replacePairs_append (notMem_escapeIn (Or.inl rfl) double) (head?_flatMap_escapeIn text),
          List.flatMap_append, flatMap_guardQuote_escapeIn double, inner]

theorem requoted_doubleQuoted (text : String) :
    requoted (doubleQuoted text) = singleQuoted text := by
  rw [requoted, doubleQuoted, String.toList_ofList, quoteChars, List.tail_cons,
    List.dropLast_concat, replacePairs_flatMap]
  rfl

end Text

/-! ## One token -/

/-- Whether a text is cut into one token that takes all of its bytes. -/
def IsToken (text : String) (token : Token) : Prop :=
  Lexeme.ofTypeText text = .ok [⟨token, 0, text.utf8ByteSize⟩]

namespace IsToken

theorem of_next?
    {text : String} {token : Token}
    (scanned : Scan.next? text.toList = some ⟨token, text.toList, []⟩) :
    IsToken text token := by
  rw [IsToken, Lexeme.ofTypeText, Lexeme.all, Lexeme.allFrom_of_next? scanned, Lexeme.allFrom,
    byteLength_toList, Nat.zero_add]
  rfl

theorem unique {text : String} {token other : Token}
    (first : IsToken text token) (second : IsToken text other) : token = other := by
  rw [IsToken, first] at second
  cases second
  rfl

end IsToken

theorem isToken_quoteChars {quote : Char} (quotes : QuotesText quote) (text : String) :
    IsToken (String.ofList (quoteChars quote text.toList)) (.string (escaped quote text)) := by
  apply IsToken.of_next?
  have scanned := Scan.next?_quoteChars quotes text []
  rwa [List.append_nil, ← String.toList_ofList (l := quoteChars quote text.toList)] at scanned

theorem isToken_singleQuoted (text : String) :
    IsToken (singleQuoted text) (.string (escaped '\'' text)) :=
  isToken_quoteChars (Or.inr rfl) text

theorem isToken_of_isIdentifier {text : String} (identifier : isIdentifier text) :
    IsToken text (.name text) := by
  apply IsToken.of_next?
  have scanned : Scan.next? (text.toList ++ []) = _ :=
    Scan.next?_of_isName (Scan.isName_of_isIdentifier identifier) nofun
  rwa [List.append_nil] at scanned

theorem isToken_propertyKey (key : String) :
    IsToken (propertyKey key)
      (if isIdentifier key then .name key else .string (escaped '"' key)) := by
  by_cases identifier : isIdentifier key
  · rw [propertyKey, if_pos identifier, if_pos identifier]
    exact isToken_of_isIdentifier identifier
  · rw [propertyKey, if_neg identifier, if_neg identifier]
    exact isToken_quoteChars (Or.inl rfl) key

/-! ## Read back -/

theorem read?_escaped (text : String) :
    Json.Value.read? ("\"" ++ escaped '"' text ++ "\"") = some (.string text) := by
  have shape : "\"" ++ escaped '"' text ++ "\"" = (Json.Value.string text).text := by
    have chars : (escaped '"' text).toList = text.toList.flatMap (escapeIn '"') :=
      String.toList_ofList
    apply String.toList_inj.mp
    rw [String.toList_append, String.toList_append, chars, Json.Value.text,
      Json.Written.toList_doubleQuoted, List.append_assoc]
    rfl
  rw [shape, Json.Value.read?, Json.Written.read?_text (.string text), Option.bind_some,
    Json.Written.value?_ofValue (.string _ text)]

theorem singleQuoted_injective : Function.Injective singleQuoted := by
  intro text other same
  have first := isToken_singleQuoted text
  rw [same] at first
  have payloads := Token.string.inj (first.unique (isToken_singleQuoted other))
  rw [← Option.some_inj, ← scriptUnescape?_escaped text, payloads, scriptUnescape?_escaped]

theorem propertyKey_injective : Function.Injective propertyKey := by
  intro key other same
  have first := isToken_propertyKey key
  rw [same] at first
  have tokens := first.unique (isToken_propertyKey other)
  split at tokens
  · split at tokens
    · exact Token.name.inj tokens
    · cases tokens
  · split at tokens
    · cases tokens
    · have payloads := Token.string.inj tokens
      have values := read?_escaped key
      rw [payloads, read?_escaped] at values
      cases values
      rfl

/-- A single-quoted text is what becomes of a double-quoted one by exchanging its quotes, and it is
one string literal in which a script reads the text. A key is one name where it is an identifier,
else one string literal in which JSON reads the key. No two texts are written alike in either way. -/
theorem quoted_read_back :
    (∀ text, singleQuoted text = requoted (doubleQuoted text) ∧
      ∃ payload, IsToken (singleQuoted text) (.string payload) ∧
        scriptUnescape? payload = some text) ∧
    (∀ key, if isIdentifier key then IsToken (propertyKey key) (.name key)
      else ∃ payload, IsToken (propertyKey key) (.string payload) ∧
        Json.Value.read? ("\"" ++ payload ++ "\"") = some (.string key)) ∧
    Function.Injective singleQuoted ∧ Function.Injective propertyKey := by
  refine ⟨?_, ?_, singleQuoted_injective, propertyKey_injective⟩
  · intro text
    exact ⟨(requoted_doubleQuoted text).symm, _, isToken_singleQuoted text,
      scriptUnescape?_escaped text⟩
  · intro key
    have token := isToken_propertyKey key
    by_cases identifier : isIdentifier key
    · rw [if_pos identifier] at token ⊢
      exact token
    · rw [if_neg identifier] at token ⊢
      exact ⟨_, token, read?_escaped key⟩

example : scriptUnescape? "it\\'s \\u0007\"\\n" = some "it's \x07\"\n" := by decide +kernel

end TypeGraph
