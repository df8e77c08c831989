import TypeGraph.Proofs.TypeExpr.Cut
import TypeGraph.Proofs.TypeExpr.Productions

/-!
# Tokens that spell a type

Tokens spell a type if every reader of complete types takes just them and gives that type, unless it
is out of nesting, wherever they are followed by a symbol that ends a type. The tokens of a text
that is a type expression spell what it stands for, and so do types put together from spelled
ones.
-/

namespace TypeGraph

def Symbol.beginsType : Symbol → Bool
  | pipe | ampersand | less | openParen | minus | openBracket | openBrace => true
  | _ => false

namespace TypeReader

open Reader

variable {α β : Type}

/-- Whether a run gives a value and leaves a rest, if its nesting is enough. -/
def Reaches (outcome : Except TypeTextError (α × List Lexeme)) (value : α)
    (rest : List Lexeme) : Prop :=
  outcome = .error .tooDeep ∨ outcome = .ok (value, rest)

theorem Reaches.bind
    {first : TypeReader α} {next : α → TypeReader β}
    {input middle rest : List Lexeme} {value : α} {result : β}
    (reaches : Reaches (first.run input) value middle)
    (later : Reaches ((next value).run middle) result rest) :
    Reaches ((first >>= next).run input) result rest := by
  rw [run_bind]
  rcases reaches with deep | ran
  · rw [deep]
    exact Or.inl rfl
  · rw [ran]
    exact later

/-- Whether nothing comes next or a symbol that ends a type and leaves no mark on it. -/
def Follows (back : List Lexeme) : Prop :=
  ∀ head ∈ back.head?, ∃ kind, head.token = .symbol kind ∧ kind.endsType ∧ kind ≠ .question

theorem follows_nil : Follows [] := by
  intro head first
  cases first

theorem follows_cons
    {head : Lexeme} {kind : Symbol}
    (token : head.token = .symbol kind)
    (ends : kind.endsType ∧ kind ≠ .question)
    (rest : List Lexeme) :
    Follows (head :: rest) := by
  rintro _ ⟨⟩
  exact ⟨kind, token, ends⟩

theorem Follows.not_isSymbol
    {back : List Lexeme} (follows : Follows back)
    {other : Symbol} (off : other.endsType = false ∨ other = .question) :
    ∀ head ∈ back.head?, isSymbol other head = false := by
  intro head member
  obtain ⟨kind, token, ends, noMark⟩ := follows head member
  rw [isSymbol, token, beq_eq_false_iff_ne]
  rintro ⟨⟩
  rcases off with off | mark
  · rw [off] at ends
    cases ends
  · exact noMark mark

theorem Follows.not_isWord {back : List Lexeme} (follows : Follows back) (word : String) :
    ∀ head ∈ back.head?, isWord word head = false := by
  intro head member
  obtain ⟨kind, token, _⟩ := follows head member
  rw [isWord, token]
  rfl

/-- Whether a reader takes just some tokens in front of what meets a condition. -/
def YieldsBefore (before : List Lexeme → Prop) (reader : TypeReader α) (tokens : List Token)
    (value : α) : Prop :=
  ∀ ⦃lexemes back⦄, lexemes.map Lexeme.token = tokens → before back →
    Reaches (reader.run (lexemes ++ back)) value back

/-- Whether a reader takes just some tokens in front of the end of a type. -/
abbrev Yields (reader : TypeReader α) (tokens : List Token) (value : α) : Prop :=
  YieldsBefore Follows reader tokens value

/-- Whether tokens begin with one that may begin a type. -/
def Begins (tokens : List Token) : Prop :=
  ∃ head rest, tokens = head :: rest ∧ ∀ kind, head = .symbol kind → kind.beginsType

structure Spelled (tokens : List Token) (type : TypeExpr) : Prop where
  begins : Begins tokens
  yields : ∀ nesting ≤ greatestNesting, Yields (level nesting).type tokens type

/-! ## Texts that are type expressions -/

/-- The same tokens in front of the end of a type. -/
def inFrontOf (back : List Lexeme) (follows : Follows back) : Alignment where
  lexeme left right := left.token = right.token
  text := id
  back := back
  shallower := True
  mapText_token same := congrArg _ same
  back_ends head member :=
    let ⟨kind, token, ends, _⟩ := follows head member
    ⟨kind, token, ends⟩

theorem run_primary_of_not_begins
    {input : List Lexeme}
    (notBegins : ¬ Begins (input.map Lexeme.token))
    (type : TypeReader TypeExpr) (inner : Option Level) :
    ∃ error, (primary type inner).run input = .error error := by
  rcases input with _ | ⟨⟨token, start, stop⟩, rest⟩
  · exact ⟨_, rfl⟩
  · have other : ∃ kind, token = .symbol kind ∧ kind.beginsType = false := by
      by_contra contrary
      refine notBegins ⟨token, rest.map Lexeme.token, rfl, fun kind same => ?_⟩
      by_contra off
      exact contrary ⟨kind, same, by simpa using off⟩
    obtain ⟨kind, rfl, off⟩ := other
    rcases rest with _ | ⟨second, rest⟩ <;> cases kind <;> first | exact ⟨_, rfl⟩ | cases off

theorem fails_bind
    {first : TypeReader α} {input : List Lexeme}
    (fails : ∃ error, first.run input = .error error)
    (next : α → TypeReader β) :
    ∃ error, (first >>= next).run input = .error error := by
  obtain ⟨error, ran⟩ := fails
  exact ⟨error, by rw [run_bind, ran]⟩

theorem run_type_of_not_begins
    {input : List Lexeme}
    (notBegins : ¬ Begins (input.map Lexeme.token))
    (nesting : Nat) :
    ∃ error, (level nesting).type.run input = .error error := by
  have operand : ∀ less, ∃ error, (level less).operand.run input = .error error := by
    intro less
    cases less <;> exact fails_bind (run_primary_of_not_begins notBegins _ _) _
  have joined : ∀ {part : TypeReader TypeExpr} {symbol : Symbol},
      symbol.beginsType → (∃ error, part.run input = .error error) →
      ∀ join, ∃ error, (joinedBy symbol join part).run input = .error error := by
    intro part symbol begins fails join
    have off : ∀ head ∈ input.head?, isSymbol symbol head = false := by
      cases input with
      | nil =>
          rintro _ ⟨⟩
      | cons head rest =>
          rintro _ ⟨⟩
          rw [isSymbol, beq_eq_false_iff_ne]
          intro token
          refine notBegins ⟨head.token, rest.map Lexeme.token, rfl, fun kind same => ?_⟩
          rw [token] at same
          cases same
          exact begins
    rw [joinedBy, run_bind, acceptSymbol, run_accept_of_ne off]
    exact fails_bind (fails_bind fails _) _
  cases nesting with
  | zero =>
      exact ⟨_, rfl⟩
  | succ nesting =>
      exact fails_bind (joined rfl (joined rfl (operand nesting) _) _) _

theorem run_type_of_parse
    {lexemes : List Lexeme} {type : TypeExpr}
    (spells : TypeExpr.ofLexemes? lexemes = .ok type) :
    (level greatestNesting).type.run lexemes = .ok (type, []) := by
  unfold TypeExpr.ofLexemes? at spells
  split at spells
  · cases spells
  · next found => cases spells; exact found
  · cases spells

theorem aligned_inFrontOf
    {back : List Lexeme} {follows : Follows back} {lexemes front : List Lexeme}
    (tokens : front.map Lexeme.token = lexemes.map Lexeme.token) :
    List.Forall₂ (inFrontOf back follows).lexeme lexemes front := by
  have same := tokens.symm
  rwa [← List.forall₂_eq_eq_eq, List.forall₂_map_left_iff, List.forall₂_map_right_iff] at same

/-- The run that gave a type and a run on the same tokens in front of what ends a type go side by
side, the second with no more nesting to spend than the first. -/
theorem agree_inFrontOf
    {lexemes front back : List Lexeme} {nesting : Nat}
    (bound : nesting ≤ greatestNesting)
    (follows : Follows back)
    (tokens : front.map Lexeme.token = lexemes.map Lexeme.token) :
    Agree (inFrontOf back follows) True (TypeExpr.mapText id) lexemes
      ((level greatestNesting).type.run lexemes) ((level nesting).type.run (front ++ back)) := by
  have levels : Levels (inFrontOf back follows) (level greatestNesting) (level nesting) :=
    levels_level bound fun _ => trivial
  exact levels.type (aligned_inFrontOf tokens)

theorem spelled_of_parse
    {lexemes : List Lexeme} {type : TypeExpr}
    (spells : TypeExpr.ofLexemes? lexemes = .ok type) :
    Spelled (lexemes.map Lexeme.token) type := by
  have ran := run_type_of_parse spells
  constructor
  · by_contra notBegins
    obtain ⟨error, fails⟩ := run_type_of_not_begins notBegins greatestNesting
    rw [ran] at fails
    cases fails
  · intro nesting bound front back tokens follows
    have agree := agree_inFrontOf bound follows tokens
    rw [ran] at agree
    obtain ⟨_, after, rests, ⟨other, same, outcome⟩ | ⟨_, deep⟩ | ⟨impossible, _⟩⟩ := agree
    · cases rests
      refine Or.inr ?_
      have equal : other = type := by
        rw [← other.mapText_id, ← type.mapText_id]
        exact same
      rw [← equal]
      exact outcome
    · exact Or.inl deep
    · exact absurd trivial impossible

/-- Whether parentheses are paired among some tokens. -/
def Balanced (tokens : List Token) : Prop :=
  ∀ lexemes, lexemes.map Lexeme.token = tokens → Paired lexemes []

theorem balanced_of_parse
    {lexemes : List Lexeme} {type : TypeExpr}
    (spells : TypeExpr.ofLexemes? lexemes = .ok type) :
    Balanced (lexemes.map Lexeme.token) := by
  have agree := agree_inFrontOf (Nat.le_refl _) follows_nil (Eq.refl (lexemes.map Lexeme.token))
  rw [run_type_of_parse spells] at agree
  have paired : Paired lexemes [] := agree.1
  intro front tokens opened after
  have aligned : List.Forall₂ (inFrontOf [] follows_nil).lexeme lexemes front :=
    aligned_inFrontOf tokens
  rw [closesBeforeArrow_append aligned, paired opened after]

/-! ## Lists -/

/-- The tokens of items with a separator between every two, and perhaps one behind the last. -/
inductive Listed (separator : Symbol) : List (List Token) → List Token → Prop where
  | none : Listed separator [] []
  | last (item : List Token) : Listed separator [item] item
  | more {item tokens : List Token} {items : List (List Token)} :
      Listed separator items tokens →
      Listed separator (item :: items) (item ++ .symbol separator :: tokens)

/-- Whether a list goes on with some tokens and does not end there. -/
def Enters (closing : Symbol) (tokens : List Token) : Prop :=
  ∃ head rest, tokens = head :: rest ∧ head ≠ .symbol closing

theorem Begins.enters
    {tokens : List Token} (begins : Begins tokens)
    {closing : Symbol} (off : closing.beginsType = false) :
    Enters closing tokens := by
  obtain ⟨head, rest, shape, begins⟩ := begins
  refine ⟨head, rest, shape, ?_⟩
  intro same
  have later := begins closing same
  rw [off] at later
  cases later

theorem Enters.not_closing
    {closing : Symbol} {lexemes : List Lexeme}
    (enters : Enters closing (lexemes.map Lexeme.token)) (after : List Lexeme) :
    ∀ head ∈ (lexemes ++ after).head?, isSymbol closing head = false := by
  obtain ⟨first, others, tokens, different⟩ := enters
  cases lexemes with
  | nil =>
      cases tokens
  | cons lexeme rest =>
      intro head member
      cases member
      rw [isSymbol, (List.cons.inj tokens).1, beq_eq_false_iff_ne]
      exact different

/-- Whether a reader of items takes just some tokens of a list. -/
def Lists (closing : Symbol) (reader : TypeReader α) (tokens : List Token) (value : α) : Prop :=
  Enters closing tokens ∧ Yields reader tokens value

theorem Begins.not_isSymbol
    {lexemes : List Lexeme} (begins : Begins (lexemes.map Lexeme.token))
    {other : Symbol} (off : other.beginsType = false) (after : List Lexeme) :
    ∀ head ∈ (lexemes ++ after).head?, isSymbol other head = false := by
  obtain ⟨first, others, tokens, begins⟩ := begins
  cases lexemes with
  | nil =>
      cases tokens
  | cons lexeme rest =>
      rintro _ ⟨⟩
      rw [isSymbol, beq_eq_false_iff_ne]
      intro token
      have later := begins other ((List.cons.inj tokens).1.symm.trans token)
      rw [off] at later
      cases later

/-- A separator and a closing symbol of a list. -/
structure Delimits (separator closing : Symbol) (isSeparator : Lexeme → Bool) : Prop where
  separates : ∀ {lexeme : Lexeme}, lexeme.token = .symbol separator → isSeparator lexeme
  closes : ∀ {lexeme : Lexeme}, lexeme.token = .symbol closing → isSeparator lexeme = false
  separatorEnds : separator.endsType ∧ separator ≠ .question
  closingEnds : closing.endsType ∧ closing ≠ .question

theorem reaches_untilClosed
    {separator closing : Symbol} {isSeparator : Lexeme → Bool} {item : TypeReader α}
    {items : List (List Token)} {tokens : List Token} {values : List α}
    (delimits : Delimits separator closing isSeparator)
    (listed : Listed separator items tokens)
    (each : List.Forall₂ (Lists closing item) items values)
    {lexemes : List Lexeme} {last : Lexeme}
    (spelled : lexemes.map Lexeme.token = tokens)
    (token : last.token = .symbol closing)
    (rest : List Lexeme) :
    Reaches ((untilClosed (isSymbol closing) isSeparator item).run (lexemes ++ last :: rest))
      values (last :: rest) := by
  have follows := follows_cons token delimits.closingEnds rest
  induction listed generalizing values lexemes with
  | none =>
      cases each
      rw [List.map_eq_nil_iff.mp spelled, List.nil_append, run_untilClosed, run_bind, run_next_cons,
        isSymbol, token, beq_self_eq_true]
      exact Or.inr rfl
  | last tokens =>
      rcases each with _ | ⟨⟨enters, yields⟩, ⟨⟩⟩
      rw [← spelled] at enters
      rw [run_untilClosed, run_bind, run_next_of_ne (enters.not_closing _)]
      refine Reaches.bind (yields spelled follows) ?_
      rw [run_bind, run_accept_cons, delimits.closes token]
      exact Or.inr rfl
  | @more front tokens items listed inner =>
      rcases each with _ | @⟨_, value, _, values, ⟨enters, yields⟩, each⟩
      obtain ⟨first, later, rfl, firstTokens, laterTokens⟩ := List.map_eq_append_iff.mp spelled
      obtain ⟨separating, later, rfl, separates, laterTokens⟩ :=
        List.map_eq_cons_iff.mp laterTokens
      rw [← firstTokens] at enters
      rw [List.append_assoc, run_untilClosed, run_bind, run_next_of_ne (enters.not_closing _)]
      refine Reaches.bind
        (yields firstTokens (follows_cons separates delimits.separatorEnds _)) ?_
      rw [List.cons_append, run_bind, run_accept_cons, delimits.separates separates]
      exact (inner each laterTokens).bind (Or.inr rfl)

/-! ## Types of one primary -/

def innerLevel : (nesting : Nat) → Option Level
  | 0 => none
  | nesting + 1 => some (level nesting)

theorem operand_level (nesting : Nat) :
    (level nesting).operand = suffixed (level nesting).type (innerLevel nesting) := by
  cases nesting <;> rfl

/-- Whether the level inside of a nesting has a property of its own nesting, if one is left. -/
inductive Nested (holds : Nat → Level → Prop) : Nat → Option Level → Prop where
  | none : Nested holds 0 none
  | some {nesting : Nat} {level : Level} :
      holds nesting level → Nested holds (nesting + 1) (some level)

/-- An operand that begins with no sign between types is a type where nothing follows, and fails as
one. -/
theorem run_type_of_operand
    {nesting : Nat} {head : Lexeme} {rest : List Lexeme}
    {outcome : Except TypeTextError (TypeExpr × List Lexeme)}
    (begins : head.token ≠ .symbol .pipe ∧ head.token ≠ .symbol .ampersand)
    (ran : (level nesting).operand.run (head :: rest) = outcome)
    (ends : ∀ type left, outcome = .ok (type, left) → left = []) :
    (level (nesting + 1)).type.run (head :: rest) = outcome := by
  have joined : ∀ {part : TypeReader TypeExpr} {kind : Symbol} (join),
      head.token ≠ .symbol kind → part.run (head :: rest) = outcome →
      (joinedBy kind join part).run (head :: rest) = outcome := by
    intro part kind join different ran
    have off : ∀ first ∈ (head :: rest).head?, isSymbol kind first = false := by
      rintro _ ⟨⟩
      exact beq_eq_false_iff_ne.mpr different
    rw [joinedBy, run_bind, acceptSymbol, run_accept_of_ne off]
    cases outcome with
    | error error =>
        exact run_bind_error (run_bind_error ran _) _
    | ok success =>
        obtain ⟨type, left⟩ := success
        cases ends type left rfl
        have parts : (separated (isSymbol kind) part).run (head :: rest) = .ok ([type], []) := by
          rw [separated, run_bind_ok ran, run_bind, run_separatedItems]
          rfl
        exact run_bind_ok parts _
  have union := joined .union begins.1 (joined .intersection begins.2 ran)
  cases outcome with
  | error error =>
      exact run_bind_error union _
  | ok success =>
      obtain ⟨type, left⟩ := success
      cases ends type left rfl
      exact run_bind_ok union _

/-- Whether a symbol is not next. -/
def Lacks (kind : Symbol) (back : List Lexeme) : Prop :=
  ∀ head ∈ back.head?, isSymbol kind head = false

theorem Follows.lacks
    {back : List Lexeme} (follows : Follows back)
    {kind : Symbol} (off : kind.endsType = false) :
    Lacks kind back :=
  follows.not_isSymbol (Or.inl off)

theorem reaches_separatedItems_nil
    {kind : Symbol} {back : List Lexeme} (lacks : Lacks kind back) (item : TypeReader α) :
    Reaches ((separatedItems (isSymbol kind) item).run back) [] back := by
  rw [run_separatedItems, run_bind, run_accept_of_ne lacks]
  exact Or.inr rfl

theorem yields_joinedBy
    {before : List Lexeme → Prop}
    {kind : Symbol} {head : Token} {rest : List Token} {type : TypeExpr}
    {part : TypeReader TypeExpr}
    (lacks : ∀ back, before back → Lacks kind back)
    (different : head ≠ .symbol kind)
    (yields : YieldsBefore before part (head :: rest) type)
    (join : List TypeExpr → TypeExpr) :
    YieldsBefore before (joinedBy kind join part) (head :: rest) type := by
  intro lexemes back tokens follows
  have absent : ∀ first ∈ (lexemes ++ back).head?, isSymbol kind first = false := by
    cases lexemes with
    | nil =>
        cases tokens
    | cons first others =>
        rintro _ ⟨⟩
        rw [isSymbol, (List.cons.inj tokens).1, beq_eq_false_iff_ne]
        exact different
  rw [joinedBy, run_bind, acceptSymbol, run_accept_of_ne absent]
  have parts : Reaches ((separated (isSymbol kind) part).run (lexemes ++ back)) [type] back :=
    (yields tokens follows).bind
      ((reaches_separatedItems_nil (lacks back follows) part).bind (Or.inr rfl))
  exact parts.bind (Or.inr rfl)

theorem yields_suffixed
    {before : List Lexeme → Prop}
    {tokens : List Token} {type : TypeExpr}
    {reader : TypeReader TypeExpr} {inner : Option Level}
    (lacks : ∀ back, before back → Lacks .openBracket back)
    (yields : YieldsBefore before (primary reader inner) tokens type) :
    YieldsBefore before (suffixed reader inner) tokens type :=
  fun _ back same follows => (yields same follows).bind
    ((reaches_separatedItems_nil (lacks back follows) _).bind (Or.inr rfl))

theorem yields_complete
    {tokens : List Token} {type : TypeExpr} {inner : Level}
    (yields : Yields (union inner.operand) tokens type) :
    Yields (complete inner) tokens type := by
  intro lexemes back same follows
  refine (yields same follows).bind ?_
  rw [run_bind, acceptWord, run_accept_of_ne (follows.not_isWord _)]
  exact Or.inr rfl

theorem spelled_of_complete
    {tokens : List Token} {type : TypeExpr}
    (begins : Begins tokens)
    (yields : ∀ nesting ≤ greatestNesting, Yields (complete (level nesting)) tokens type) :
    Spelled tokens type where
  begins := begins
  yields := by
    intro nesting bound
    cases nesting with
    | zero =>
        exact fun _ _ _ _ => Or.inl rfl
    | succ nesting =>
        exact yields nesting (Nat.le_of_succ_le bound)

theorem spelled_of_operand
    {head : Token} {rest : List Token} {type : TypeExpr}
    (begins : ∀ kind, head = .symbol kind →
      kind.beginsType ∧ kind ≠ .pipe ∧ kind ≠ .ampersand)
    (yields : ∀ nesting ≤ greatestNesting,
      Yields (level nesting).operand (head :: rest) type) :
    Spelled (head :: rest) type := by
  apply spelled_of_complete ⟨head, rest, rfl, fun kind same => (begins kind same).1⟩
  intro nesting bound
  have intersected : Yields (intersection (level nesting).operand) (head :: rest) type :=
    yields_joinedBy (fun _ follows => follows.lacks rfl) (fun same => (begins _ same).2.2 rfl)
      (yields nesting bound) .intersection
  have united : Yields (union (level nesting).operand) (head :: rest) type :=
    yields_joinedBy (fun _ follows => follows.lacks rfl) (fun same => (begins _ same).2.1 rfl)
      intersected .union
  exact yields_complete united

theorem spelled_of_primary
    {head : Token} {rest : List Token} {type : TypeExpr}
    (begins : ∀ kind, head = .symbol kind →
      kind.beginsType ∧ kind ≠ .pipe ∧ kind ≠ .ampersand)
    (yields : ∀ nesting ≤ greatestNesting,
      Yields (primary (level nesting).type (innerLevel nesting)) (head :: rest) type) :
    Spelled (head :: rest) type := by
  apply spelled_of_operand begins
  intro nesting bound
  rw [operand_level]
  exact yields_suffixed (fun _ follows => follows.lacks rfl) (yields nesting bound)

theorem spelled_string (text : String) : Spelled [.string text] (.string text) := by
  refine spelled_of_primary nofun fun nesting _ lexemes back tokens follows => ?_
  obtain ⟨⟨_, start, stop⟩, _, rfl, rfl, nothing⟩ := List.map_eq_cons_iff.mp tokens
  rw [List.map_eq_nil_iff.mp nothing]
  exact Or.inr rfl

theorem spelled_number (numeral : String) : Spelled [.number numeral] (.number numeral) := by
  refine spelled_of_primary nofun fun nesting _ lexemes back tokens follows => ?_
  obtain ⟨⟨_, start, stop⟩, _, rfl, rfl, nothing⟩ := List.map_eq_cons_iff.mp tokens
  rw [List.map_eq_nil_iff.mp nothing]
  exact Or.inr rfl

theorem spelled_negative (numeral : String) :
    Spelled [.symbol .minus, .number numeral] (.number ("-" ++ numeral)) := by
  refine spelled_of_primary (by rintro kind ⟨⟩; decide) fun nesting _ lexemes back tokens _ => ?_
  obtain ⟨⟨_, start, stop⟩, _, rfl, rfl, rest⟩ := List.map_eq_cons_iff.mp tokens
  obtain ⟨⟨_, start, stop⟩, _, rfl, rfl, nothing⟩ := List.map_eq_cons_iff.mp rest
  rw [List.map_eq_nil_iff.mp nothing]
  exact Or.inr rfl

/-! ## References -/

theorem operationOrReference_of_plain
    {follower : Option Token}
    (plain : (follower.map beginsOperand).getD false = false)
    (inner : Option Level) (word : String) :
    operationOrReference inner word follower = reference inner := by
  rw [operationOrReference, plain]
  cases TypeOperator.ofWord? word <;> rfl

/-- A name is a reference, unless a second token makes it something else. -/
theorem run_primary_of_name
    {head : Lexeme} {word : String} {rest : List Lexeme}
    (token : head.token = .name word)
    {inner : Option Level}
    (plain : ∀ second ∈ rest.head?, ∃ kind, second.token = .symbol kind ∧
      operationOrReference inner word (some (.symbol kind)) = reference inner ∧
        (kind = .less ∨ kind = .openParen → word ≠ "new"))
    (reader : TypeReader TypeExpr) :
    (primary reader inner).run (head :: rest) = (reference inner).run (head :: rest) := by
  rw [primary, run_nextTwo_bind]
  cases rest with
  | nil =>
      have tokens : firstTwo [head] = [.name word] := congrArg (fun token => [token]) token
      rw [tokens]
      split <;> simp_all [operationOrReference_of_plain]
  | cons second others =>
      obtain ⟨kind, symbol, refers, notNew⟩ := plain second rfl
      have tokens : firstTwo (head :: second :: others) = [.name word, .symbol kind] := by
        rw [firstTwo, List.take_succ_cons, List.take_succ_cons, List.take_zero, List.map_cons,
          List.map_singleton, token, symbol]
      rw [tokens]
      split <;> simp_all
      next same =>
        rw [← same.2, List.head?_cons, refers]

theorem run_path
    {head : Lexeme} {word : String} {rest : List Lexeme}
    (token : head.token = .name word)
    (noDot : ∀ second ∈ rest.head?, isSymbol .dot second = false) :
    (separated (isSymbol .dot) (name .qualifiedName)).run (head :: rest) = .ok ([word], rest) := by
  rw [separated, run_bind, run_name_of_eq token]
  dsimp only
  rw [run_bind, run_separatedItems, run_bind, run_accept_of_ne noDot]
  rfl

theorem spelled_named (word : String) : Spelled [.name word] (.named word) := by
  refine spelled_of_primary nofun fun nesting _ lexemes back tokens follows => ?_
  obtain ⟨head, _, rfl, token, nothing⟩ := List.map_eq_cons_iff.mp tokens
  rw [List.map_eq_nil_iff.mp nothing, List.singleton_append, run_primary_of_name token]
  · rw [reference, run_bind, run_path token (follows.not_isSymbol (Or.inl rfl))]
    dsimp only
    rw [run_bind, acceptSymbol, run_accept_of_ne (follows.not_isSymbol (Or.inl rfl))]
    exact Or.inr rfl
  · intro second member
    obtain ⟨kind, symbol, ends, _⟩ := follows second member
    refine ⟨kind, symbol, ?_, ?_⟩
    · apply operationOrReference_of_plain
      cases kind <;> first | rfl | cases ends
    · intro bracket
      rcases bracket with rfl | rfl
      · cases ends
      · cases ends

theorem reaches_within
    {read : Level → TypeReader α} {nesting : Nat} {input rest : List Lexeme} {value : α}
    (reaches : ∀ less, nesting = less + 1 → Reaches ((read (level less)).run input) value rest) :
    Reaches ((within (innerLevel nesting) read).run input) value rest := by
  cases nesting with
  | zero =>
      exact Or.inl rfl
  | succ less =>
      exact reaches less rfl

theorem Spelled.lists
    {tokens : List Token} {type : TypeExpr} (spelled : Spelled tokens type)
    {closing : Symbol} (off : closing.beginsType = false)
    {nesting : Nat} (bound : nesting ≤ greatestNesting) :
    Lists closing (level nesting).type tokens type :=
  ⟨spelled.begins.enters off, spelled.yields nesting bound⟩

theorem delimits_symbol
    {separator closing : Symbol}
    (different : separator ≠ closing)
    (separatorEnds : separator.endsType ∧ separator ≠ .question)
    (closingEnds : closing.endsType ∧ closing ≠ .question) :
    Delimits separator closing (isSymbol separator) where
  separates token := by rw [isSymbol, token, beq_self_eq_true]
  closes token := by
    rw [isSymbol, token, beq_eq_false_iff_ne]
    rintro ⟨⟩
    exact different rfl
  separatorEnds := separatorEnds
  closingEnds := closingEnds

theorem run_expect_of_eq
    {kind : Symbol} {head : Lexeme} (token : head.token = .symbol kind)
    (place : Place) (rest : List Lexeme) :
    (expect kind place).run (head :: rest) = .ok ((), rest) := by
  rw [run_expect_cons, isSymbol, token, beq_self_eq_true, if_pos rfl]

theorem reaches_typeArguments
    {nesting : Nat} (bound : nesting ≤ greatestNesting)
    {items : List (List Token)} {tokens : List Token} {types : List TypeExpr}
    (listed : Listed .comma items tokens)
    (each : List.Forall₂ Spelled items types)
    (nonempty : items ≠ [])
    {lexemes : List Lexeme} {last : Lexeme}
    (spelled : lexemes.map Lexeme.token = tokens)
    (token : last.token = .symbol .greater)
    (rest : List Lexeme) :
    Reaches ((typeArguments (level nesting).type).run (lexemes ++ last :: rest)) types rest := by
  have comma : Delimits .comma .greater (isSymbol .comma) :=
    delimits_symbol nofun ⟨rfl, nofun⟩ ⟨rfl, nofun⟩
  -- The first argument is read apart from the others, which the loop over a list reads.
  cases listed with
  | none =>
      exact absurd rfl nonempty
  | last item =>
      rcases each with _ | ⟨first, ⟨⟩⟩
      refine (first.yields nesting bound spelled (follows_cons token ⟨rfl, nofun⟩ rest)).bind ?_
      rw [run_bind, acceptSymbol, run_accept_cons, comma.closes token]
      rw [if_neg Bool.false_ne_true]
      dsimp only
      rw [if_neg Bool.false_ne_true, run_bind, run_pure]
      dsimp only
      rw [run_bind, run_expect_of_eq token]
      exact Or.inr rfl
  | @more item inner items listed =>
      rcases each with _ | ⟨first, each⟩
      obtain ⟨front, later, rfl, frontTokens, laterTokens⟩ := List.map_eq_append_iff.mp spelled
      obtain ⟨separating, later, rfl, separates, laterTokens⟩ :=
        List.map_eq_cons_iff.mp laterTokens
      rw [List.append_assoc, List.cons_append]
      refine (first.yields nesting bound frontTokens
        (follows_cons separates ⟨rfl, nofun⟩ _)).bind ?_
      rw [run_bind, acceptSymbol, run_accept_cons, comma.separates separates]
      have others := reaches_untilClosed comma listed
        (each.imp fun _ _ spelled => spelled.lists rfl bound) laterTokens token rest
      refine others.bind ?_
      rw [run_bind, run_expect_of_eq token]
      exact Or.inr rfl

theorem spelled_reference
    {word : String} (notNew : word ≠ "new")
    {items : List (List Token)} {tokens : List Token} {types : List TypeExpr}
    (listed : Listed .comma items tokens)
    (each : List.Forall₂ Spelled items types)
    (nonempty : items ≠ []) :
    Spelled (.name word :: .symbol .less :: (tokens ++ [.symbol .greater]))
      (.reference [word] types) := by
  refine spelled_of_primary nofun fun nesting bound lexemes back spelled follows => ?_
  obtain ⟨head, _, rfl, name, spelled⟩ := List.map_eq_cons_iff.mp spelled
  obtain ⟨opening, _, rfl, opens, spelled⟩ := List.map_eq_cons_iff.mp spelled
  obtain ⟨inside, _, rfl, insideTokens, final⟩ := List.map_eq_append_iff.mp spelled
  obtain ⟨last, _, rfl, closes, nothing⟩ := List.map_eq_cons_iff.mp final
  rw [List.map_eq_nil_iff.mp nothing, List.cons_append, run_primary_of_name name]
  · rw [reference, run_bind, run_path name]
    · dsimp only
      rw [List.cons_append, run_bind, acceptSymbol, run_accept_cons, isSymbol, opens,
        beq_self_eq_true, if_pos rfl]
      dsimp only
      rw [if_pos rfl, List.append_assoc, List.singleton_append]
      refine Reaches.bind (reaches_within fun less same => ?_) (Or.inr rfl)
      exact reaches_typeArguments (by omega) listed each nonempty insideTokens closes back
    · rintro _ ⟨⟩
      rw [isSymbol, opens]
      rfl
  · rintro _ ⟨⟩
    exact ⟨.less, opens, operationOrReference_of_plain rfl _ _, fun _ => notNew⟩

/-! ## Tuples and objects -/

theorem run_primary_of_openBracket
    {head : Lexeme} {rest : List Lexeme} (reader : TypeReader TypeExpr) (inner : Option Level)
    (opened : head.token = .symbol .openBracket) :
    (primary reader inner).run (head :: rest) = (tuple inner).run (head :: rest) := by
  rw [primary, run_nextTwo_bind, firstTwo, List.take_succ_cons, List.map_cons, opened]

theorem run_primary_of_openBrace
    {head : Lexeme} {rest : List Lexeme} (reader : TypeReader TypeExpr) (inner : Option Level)
    (opened : head.token = .symbol .openBrace) :
    (primary reader inner).run (head :: rest) = (object inner).run (head :: rest) := by
  rw [primary, run_nextTwo_bind, firstTwo, List.take_succ_cons, List.map_cons, opened]

/-- A list in brackets that a primary is chosen by. -/
theorem spelled_bracketed
    {opening separator closing : Symbol} {isSeparator : Lexeme → Bool}
    {item : TypeReader TypeExpr → TypeReader α} {build : List α → TypeExpr}
    {items : List (List Token)} {tokens : List Token} {values : List α}
    (opens closes : Place)
    (begins : opening.beginsType ∧ opening ≠ .pipe ∧ opening ≠ .ampersand)
    (selected : ∀ {head rest} reader inner, head.token = .symbol opening →
      (primary reader inner).run (head :: rest) =
        (within inner fun level => expect opening opens >>= fun _ =>
          untilClosed (isSymbol closing) isSeparator (item level.type) >>= fun values =>
            expect closing closes >>= fun _ => pure (build values)).run (head :: rest))
    (delimits : Delimits separator closing isSeparator)
    (listed : Listed separator items tokens)
    (each : List.Forall₂ (fun tokens value => ∀ nesting ≤ greatestNesting,
      Lists closing (item (level nesting).type) tokens value) items values) :
    Spelled (.symbol opening :: (tokens ++ [.symbol closing])) (build values) := by
  refine spelled_of_primary (fun kind same => ?_) fun nesting bound lexemes back spelled follows => ?_
  · cases same
    exact begins
  · obtain ⟨first, _, rfl, opened, spelled⟩ := List.map_eq_cons_iff.mp spelled
    obtain ⟨inside, _, rfl, insideTokens, final⟩ := List.map_eq_append_iff.mp spelled
    obtain ⟨last, _, rfl, closed, nothing⟩ := List.map_eq_cons_iff.mp final
    rw [List.map_eq_nil_iff.mp nothing, List.cons_append, List.append_assoc,
      List.singleton_append, selected _ _ opened]
    refine reaches_within fun less same => ?_
    have lists := each.imp fun _ _ lists => lists less (by omega)
    rw [run_bind, run_expect_of_eq opened]
    refine (reaches_untilClosed delimits listed lists insideTokens closed back).bind ?_
    rw [run_bind, run_expect_of_eq closed]
    exact Or.inr rfl

def SpelledElement (tokens : List Token) (element : TypeExpr) : Prop :=
  ∀ nesting ≤ greatestNesting,
    Lists .closeBracket (tupleElement (level nesting).type) tokens element

theorem Spelled.element
    {tokens : List Token} {type : TypeExpr} (spelled : Spelled tokens type) :
    SpelledElement tokens type := by
  intro nesting bound
  refine ⟨spelled.begins.enters rfl, fun lexemes back same follows => ?_⟩
  have begins := spelled.begins
  rw [← same] at begins
  rw [tupleElement, run_bind, acceptSymbol,
    run_accept_of_ne (begins.not_isSymbol rfl back)]
  refine (spelled.yields nesting bound same follows).bind ?_
  rw [run_bind, acceptSymbol, run_accept_of_ne (follows.not_isSymbol (Or.inr rfl))]
  exact Or.inr rfl

theorem spelled_elements
    {items : List (List Token)} {tokens : List Token} {elements : List TypeExpr}
    (listed : Listed .comma items tokens)
    (each : List.Forall₂ SpelledElement items elements) :
    Spelled (.symbol .openBracket :: (tokens ++ [.symbol .closeBracket])) (.tuple elements) := by
  have comma : Delimits .comma .closeBracket (isSymbol .comma) :=
    delimits_symbol nofun ⟨rfl, nofun⟩ ⟨rfl, nofun⟩
  exact spelled_bracketed .tupleStart .tupleEnd ⟨rfl, nofun, nofun⟩
    run_primary_of_openBracket comma listed each

theorem spelled_tuple
    {items : List (List Token)} {tokens : List Token} {types : List TypeExpr}
    (listed : Listed .comma items tokens)
    (each : List.Forall₂ Spelled items types) :
    Spelled (.symbol .openBracket :: (tokens ++ [.symbol .closeBracket])) (.tuple types) :=
  spelled_elements listed (each.imp fun _ _ spelled => spelled.element)

def SpelledMember (tokens : List Token) (member : Member) : Prop :=
  ∀ nesting ≤ greatestNesting,
    Lists .closeBrace (TypeReader.member (level nesting).type) tokens member

/-- A key and a colon begin a property, also where the key is the word `readonly`. -/
theorem run_member_of_key
    {head colon : Lexeme} {text : String}
    (key : head.token = .name text ∨ head.token = .string text)
    (separates : colon.token = .symbol .colon)
    (type : TypeReader TypeExpr) (rest : List Lexeme) :
    (member type).run (head :: colon :: rest) =
      (type >>= fun value => pure (.property text value)).run rest := by
  rcases head with ⟨token, start, stop⟩
  rcases colon with ⟨_, colonStart, colonStop⟩
  cases separates
  have noWord : readonlyWord.run (⟨token, start, stop⟩ :: ⟨.symbol .colon, colonStart, colonStop⟩
      :: rest) = .ok ((), ⟨token, start, stop⟩ :: ⟨.symbol .colon, colonStart, colonStop⟩ :: rest)
      := by
    rw [readonlyWord, run_nextTwo_bind, firstTwo]
    rcases key with rfl | rfl
    · split <;> simp_all
    · rfl
  rcases key with rfl | rfl
  · change (readonlyWord >>= fun _ => _).run _ = _
    rw [run_bind, noWord]
    rfl
  · rfl

theorem spelledMember_property
    {key : Token} {text : String} (keyed : key = .name text ∨ key = .string text)
    {tokens : List Token} {type : TypeExpr} (spelled : Spelled tokens type) :
    SpelledMember (key :: .symbol .colon :: tokens) (.property text type) := by
  intro nesting bound
  constructor
  · refine ⟨key, _, rfl, ?_⟩
    rcases keyed with rfl | rfl <;> exact nofun
  · intro lexemes back same follows
    obtain ⟨head, _, rfl, rfl, later⟩ := List.map_eq_cons_iff.mp same
    obtain ⟨colon, value, rfl, separates, later⟩ := List.map_eq_cons_iff.mp later
    rw [List.cons_append, List.cons_append, run_member_of_key keyed separates]
    exact (spelled.yields nesting bound later follows).bind (Or.inr rfl)

theorem delimits_object :
    Delimits .semicolon .closeBrace fun lexeme =>
      isSymbol .semicolon lexeme || isSymbol .comma lexeme where
  separates token := by
    rw [isSymbol, token]
    rfl
  closes token := by
    rw [isSymbol, isSymbol, token]
    rfl
  separatorEnds := ⟨rfl, nofun⟩
  closingEnds := ⟨rfl, nofun⟩

theorem spelled_object
    {items : List (List Token)} {tokens : List Token} {members : List Member}
    (listed : Listed .semicolon items tokens)
    (each : List.Forall₂ SpelledMember items members) :
    Spelled (.symbol .openBrace :: (tokens ++ [.symbol .closeBrace])) (.object members) := by
  exact spelled_bracketed .objectStart .objectEnd ⟨rfl, nofun, nofun⟩
    run_primary_of_openBrace delimits_object listed each

end TypeReader

end TypeGraph
