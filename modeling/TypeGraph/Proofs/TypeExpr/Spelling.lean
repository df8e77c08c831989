import TypeGraph.Proofs.TypeExpr.Reading
import TypeGraph.Text.Identifier

/-!
# Texts that write a type

Texts are put together out of pieces. A piece is closed if its tokens do not depend on what follows
it, as with a bracket or a quoted text; a name, a numeral or a type text is cut into the same tokens
where the next piece goes on with none. A text writes a type if it is cut into tokens that spell the
type.
-/

namespace TypeGraph

/-- Whether a text is cut into tokens where what follows goes on with no token. -/
def Spells (text : String) (tokens : List Token) : Prop :=
  ∀ rest, Stops rest → Cut (text.toList ++ rest) tokens rest

/-- Whether a text is cut into tokens whatever follows. -/
def Closed (text : String) (tokens : List Token) : Prop :=
  ∀ rest, Cut (text.toList ++ rest) tokens rest

/-- Whether a text goes on with no token in front of it. -/
def Opens (text : String) : Prop :=
  text.toList.head?.any fun c => !Scan.isNamePart c && c != '.' && c != '>'

variable {text left right : String} {tokens first second : List Token}

theorem Opens.stops (opens : Opens text) (rest : List Char) : Stops (text.toList ++ rest) := by
  rw [Opens] at opens
  cases chars : text.toList with
  | nil =>
      rw [chars] at opens
      cases opens
  | cons c others =>
      rw [chars, List.head?_cons, Option.any_some] at opens
      rintro _ ⟨⟩
      simpa [and_assoc] using opens

theorem Closed.spells (closed : Closed text tokens) : Spells text tokens :=
  fun rest _ => closed rest

theorem Closed.append (before : Closed left first) (behind : Closed right second) :
    Closed (left ++ right) (first ++ second) := by
  intro rest
  rw [String.toList_append, List.append_assoc]
  exact (before _).append (behind rest)

theorem Closed.append_spells (before : Closed left first) (behind : Spells right second) :
    Spells (left ++ right) (first ++ second) := by
  intro rest stops
  rw [String.toList_append, List.append_assoc]
  exact (before _).append (behind rest stops)

theorem Spells.append_closed
    (before : Spells left first)
    (behind : Closed right second)
    (opens : Opens right) :
    Closed (left ++ right) (first ++ second) := by
  intro rest
  rw [String.toList_append, List.append_assoc]
  exact (before _ (opens.stops rest)).append (behind rest)

theorem Spells.exists_lexemes (spells : Spells text first) :
    ∃ lexemes, Lexeme.ofTypeText text = .ok lexemes ∧ lexemes.map Lexeme.token = first := by
  have cut := spells [] nofun
  rw [List.append_nil] at cut
  obtain ⟨lexemes, ran, same⟩ := cut.exists_lexemes rfl 0
  refine ⟨lexemes, ?_, same⟩
  rw [Lexeme.ofTypeText_eq_ok_iff, Lexeme.all, ran]

/-! ## Blanks and symbols -/

/-- The symbol that a character is whatever follows it. -/
def Symbol.ofChar? (c : Char) : Option Symbol :=
  [comma, less, greater, openParen, closeParen, openBracket, closeBracket, openBrace, closeBrace,
    pipe, ampersand, colon, semicolon, question, minus].find? fun kind => kind.spelling == [c]

theorem Scan.next?_of_ofChar?
    {c : Char} {kind : Symbol} (symbol : Symbol.ofChar? c = some kind) (rest : List Char) :
    Scan.next? (c :: rest) = some ⟨.symbol kind, [c], rest⟩ := by
  have member := List.mem_of_find?_eq_some symbol
  have spelling := List.find?_some symbol
  simp only [List.mem_cons, List.not_mem_nil, or_false] at member
  rcases member with rfl | rfl | rfl | rfl | rfl | rfl | rfl | rfl | rfl | rfl | rfl | rfl | rfl |
    rfl | rfl <;>
    · cases eq_of_beq spelling
      rfl

/-- Whether a character is a blank or a symbol by itself. -/
def isMark (c : Char) : Bool :=
  Scan.isSkipped c || (Symbol.ofChar? c).isSome

def markTokens (text : List Char) : List Token :=
  (text.filterMap Symbol.ofChar?).map .symbol

theorem cut_marks {text : List Char} (marks : text.all isMark) (rest : List Char) :
    Cut (text ++ rest) (markTokens text) rest := by
  induction text with
  | nil =>
      exact .done rest
  | cons c text inner =>
      rw [List.all_cons, Bool.and_eq_true] at marks
      have later := inner marks.2
      rw [markTokens, List.filterMap_cons]
      cases symbol : Symbol.ofChar? c with
      | none =>
          have skipped := marks.1
          rw [isMark, symbol, Option.isSome_none, Bool.or_false] at skipped
          exact .skip skipped later
      | some kind =>
          exact .token (Scan.next?_of_ofChar? symbol (text ++ rest)) later

theorem closed_marks (marks : text.toList.all isMark) : Closed text (markTokens text.toList) :=
  cut_marks marks

example : Closed "; " [.symbol .semicolon] := closed_marks rfl

theorem closed_ellipsis : Closed "..." [.symbol .ellipsis] :=
  fun rest => @Cut.token _ _ _ ⟨.symbol .ellipsis, ['.', '.', '.'], rest⟩ rfl (.done rest)

theorem closed_arrow : Closed "=>" [.symbol .arrow] :=
  fun rest => @Cut.token _ _ _ ⟨.symbol .arrow, ['=', '>'], rest⟩ rfl (.done rest)

theorem closed_blanks (blanks : text.toList.all Scan.isSkipped) : Closed text [] := by
  intro rest
  generalize text.toList = chars at blanks
  induction chars with
  | nil =>
      exact .done rest
  | cons c chars inner =>
      rw [List.all_cons, Bool.and_eq_true] at blanks
      exact .skip blanks.1 (inner blanks.2)

/-! ## Names and numerals -/

theorem Scan.isNameStart_of_isIdentifierStart {c : Char} (start : Text.isIdentifierStart c) :
    Scan.isNameStart c := by
  rw [Scan.isNameStart, Bool.or_eq_true]
  exact Or.inl start

theorem Scan.isNamePart_of_isIdentifierPart {c : Char} (part : Text.isIdentifierPart c) :
    Scan.isNamePart c := by
  rw [Scan.isNamePart, Bool.or_eq_true]
  exact Or.inl part

/-- Whether a text is one name of type text. -/
def Scan.isName (text : String) : Bool :=
  match text.toList with
  | [] => false
  | c :: rest => isNameStart c && rest.all isNamePart

theorem Scan.isName_of_isIdentifier (identifier : Text.isIdentifier text) : Scan.isName text := by
  rw [Text.isIdentifier] at identifier
  rw [isName]
  cases chars : text.toList with
  | nil =>
      rw [chars] at identifier
      cases identifier
  | cons c others =>
      rw [chars, Text.isIdentifierChars, Bool.and_eq_true] at identifier
      rw [Bool.and_eq_true]
      constructor
      · exact isNameStart_of_isIdentifierStart identifier.1
      · apply List.all_eq_true.mpr
        intro part member
        exact isNamePart_of_isIdentifierPart (List.all_eq_true.mp identifier.2 part member)

theorem Scan.isNamePart_of_isNameStart {c : Char} (start : isNameStart c) : isNamePart c := by
  simp only [isNameStart, isNamePart, Char.isAlphanum, Bool.or_eq_true] at *
  tauto

theorem Scan.all_isNamePart_of_isName (named : isName text) : text.toList.all isNamePart := by
  rw [isName] at named
  cases chars : text.toList with
  | nil =>
      rfl
  | cons c others =>
      rw [chars, Bool.and_eq_true] at named
      rw [List.all_cons, Bool.and_eq_true]
      exact ⟨isNamePart_of_isNameStart named.1, named.2⟩

theorem Scan.next?_of_isName {rest : List Char} (named : isName text) (stops : Stops rest) :
    next? (text.toList ++ rest) = some ⟨.name text, text.toList, rest⟩ := by
  have every := all_isNamePart_of_isName named
  rw [isName] at named
  cases chars : text.toList with
  | nil =>
      rw [chars] at named
      cases named
  | cons c others =>
      rw [chars, Bool.and_eq_true] at named
      rw [chars] at every
      have parts := takeWhile_of_all every fun c member => (stops c member).1
      rw [List.cons_append, next?_of_nameStart named.1, ← List.cons_append, parts.1, parts.2, ← chars,
        String.ofList_toList]

theorem spells_name (named : Scan.isName text) : Spells text [.name text] :=
  fun rest stops => .token (Scan.next?_of_isName named stops) (.done rest)

theorem spells_identifier (identifier : Text.isIdentifier text) : Spells text [.name text] :=
  spells_name (Scan.isName_of_isIdentifier identifier)

inductive IsNumeral : List Char → Prop where
  | whole {digits : List Char} : digits ≠ [] → digits.all Char.isDigit → IsNumeral digits
  | point {digits fraction : List Char} :
      digits ≠ [] → digits.all Char.isDigit → fraction ≠ [] → fraction.all Char.isDigit →
      IsNumeral (digits ++ '.' :: fraction)

theorem numeral_append_of_isNumeral
    {text rest : List Char} (numeral : IsNumeral text) (stops : Stops rest) :
    Scan.numeral (text ++ rest) = (text, rest) := by
  cases numeral with
  | whole _ every =>
      have parts := takeWhile_of_all every stops.halts.notDigit
      rw [Scan.numeral_of_not_point, parts.1, parts.2]
      intro first others point
      rw [parts.2] at point
      subst point
      exact absurd rfl (stops '.' rfl).2.1
  | @point digits fraction _ every nonempty everyBehind =>
      have noDigit : ∀ c ∈ ('.' :: (fraction ++ rest)).head?, c.isDigit = false := by
        rintro _ ⟨⟩
        rfl
      have parts := takeWhile_of_all every noDigit
      have behind := takeWhile_of_all everyBehind stops.halts.notDigit
      rw [List.append_assoc, List.cons_append]
      cases fraction with
      | nil =>
          exact absurd rfl nonempty
      | cons digit others =>
          rw [List.all_cons, Bool.and_eq_true] at everyBehind
          have point := Scan.numeral_of_point parts.2 everyBehind.1
          rw [parts.1] at point
          rw [point]
          change (digits ++ '.' :: (digit :: others ++ rest).takeWhile Char.isDigit,
            (digit :: others ++ rest).dropWhile Char.isDigit) = _
          rw [behind.1, behind.2]

theorem IsNumeral.exists_digit {text : List Char} (numeral : IsNumeral text) :
    ∃ c others, text = c :: others ∧ c.isDigit := by
  cases numeral with
  | whole nonempty every =>
      obtain ⟨c, others, rfl⟩ := List.exists_cons_of_ne_nil nonempty
      exact ⟨c, others, rfl, List.all_eq_true.mp every c List.mem_cons_self⟩
  | @point digits fraction nonempty every =>
      obtain ⟨c, others, rfl⟩ := List.exists_cons_of_ne_nil nonempty
      exact ⟨c, _, rfl, List.all_eq_true.mp every c List.mem_cons_self⟩

theorem spells_numeral {text : List Char} (numeral : IsNumeral text) :
    Spells (String.ofList text) [.number (String.ofList text)] := by
  intro rest stops
  have read := numeral_append_of_isNumeral numeral stops
  obtain ⟨c, others, rfl, digit⟩ := numeral.exists_digit
  have scanned := Scan.next?_of_isDigit digit (others ++ rest)
  rw [← List.cons_append, read] at scanned
  rw [String.toList_ofList]
  exact .token scanned (.done rest)

/-! ## Texts and types -/

/-- Whether a text stands for a type wherever what follows goes on with no token and ends a type. -/
def Writes (text : String) (type : TypeExpr) : Prop :=
  ∃ tokens, Spells text tokens ∧ TypeReader.Spelled tokens type

/-- Whether a text stands for a type wherever what follows ends a type. -/
def WritesClosed (text : String) (type : TypeExpr) : Prop :=
  ∃ tokens, Closed text tokens ∧ TypeReader.Spelled tokens type

def WritesMember (text : String) (member : Member) : Prop :=
  ∃ tokens, Spells text tokens ∧ TypeReader.SpelledMember tokens member

theorem WritesClosed.writes {type : TypeExpr} (writes : WritesClosed text type) :
    Writes text type :=
  let ⟨tokens, closed, spelled⟩ := writes
  ⟨tokens, closed.spells, spelled⟩

theorem exists_lexemes_of_parse
    {text : String} {type : TypeExpr} (parsed : TypeExpr.parse text = .ok type) :
    ∃ lexemes, Lexeme.all text = .ok lexemes ∧ TypeExpr.ofLexemes? lexemes = .ok type := by
  rw [TypeExpr.parse] at parsed
  cases ran : Lexeme.ofTypeText text with
  | error error =>
      rw [ran] at parsed
      cases parsed
  | ok lexemes =>
      rw [ran] at parsed
      exact ⟨lexemes, Lexeme.ofTypeText_eq_ok_iff.mp ran, parsed⟩

theorem writes_of_parse {type : TypeExpr} (parsed : TypeExpr.parse text = .ok type) :
    Writes text type := by
  obtain ⟨lexemes, ran, spelled⟩ := exists_lexemes_of_parse parsed
  exact ⟨_, fun rest stops => (Cut.of_allFrom ran).append_right stops,
    TypeReader.spelled_of_parse spelled⟩

/-- What a text writes is what it is as a type expression, unless that is nested too deeply. -/
theorem parse_of_writes {type : TypeExpr} (writes : Writes text type) :
    TypeExpr.parse text = .error .tooDeep ∨ TypeExpr.parse text = .ok type := by
  obtain ⟨tokens, spells, spelled⟩ := writes
  obtain ⟨lexemes, whole, same⟩ := spells.exists_lexemes
  have read := spelled.yields greatestNesting (Nat.le_refl _) same TypeReader.follows_nil
  rw [List.append_nil] at read
  rw [TypeExpr.parse, whole]
  change TypeExpr.ofLexemes? lexemes = _ ∨ TypeExpr.ofLexemes? lexemes = _
  rw [TypeExpr.ofLexemes?]
  rcases read with deep | done
  · rw [deep]
    exact Or.inl rfl
  · rw [done]
    exact Or.inr rfl

theorem writes_identifier (identifier : Text.isIdentifier text) : Writes text (.named text) :=
  ⟨_, spells_identifier identifier, TypeReader.spelled_named text⟩

/-! ## Lists -/

theorem spells_intercalate
    {separator : String} {kind : Symbol} {texts : List String} {items : List (List Token)}
    (closed : Closed separator [.symbol kind])
    (opens : Opens separator)
    (each : List.Forall₂ Spells texts items) :
    ∃ tokens, TypeReader.Listed kind items tokens ∧
      Spells (separator.intercalate texts) tokens := by
  induction each with
  | nil =>
      rw [String.intercalate_nil]
      exact ⟨[], .none, fun rest _ => .done rest⟩
  | @cons text item texts items spells each inner =>
      cases each with
      | nil =>
          rw [String.intercalate_singleton]
          exact ⟨item, .last item, spells⟩
      | cons next each =>
          obtain ⟨tokens, listed, later⟩ := inner
          rw [String.intercalate_cons_cons]
          refine ⟨_, .more listed, ?_⟩
          have front := (spells.append_closed closed opens).append_spells later
          rwa [List.append_assoc] at front

theorem closed_join
    {kind : Symbol} {lines : List String} {items : List (List Token)}
    (each : List.Forall₂ (fun line item => Closed line (item ++ [.symbol kind])) lines items) :
    ∃ tokens, TypeReader.Listed kind items tokens ∧ Closed (String.join lines) tokens := by
  induction each with
  | nil =>
      rw [String.join_nil]
      exact ⟨[], .none, fun rest => .done rest⟩
  | cons closed _ inner =>
      obtain ⟨tokens, listed, later⟩ := inner
      rw [String.join_cons]
      refine ⟨_, .more listed, ?_⟩
      have front := closed.append later
      rwa [List.append_assoc] at front

theorem exists_tokens
    {α β : Type} {cuts : α → List Token → Prop} {spelled : List Token → β → Prop}
    {texts : List α} {values : List β}
    (each : List.Forall₂ (fun text value => ∃ tokens, cuts text tokens ∧ spelled tokens value)
      texts values) :
    ∃ items, List.Forall₂ cuts texts items ∧ List.Forall₂ spelled items values := by
  induction each with
  | nil =>
      exact ⟨[], .nil, .nil⟩
  | cons head _ inner =>
      obtain ⟨tokens, cut, spelled⟩ := head
      obtain ⟨items, cuts, spelleds⟩ := inner
      exact ⟨tokens :: items, .cons cut cuts, .cons spelled spelleds⟩

end TypeGraph
