import TypeGraph.Proofs.TypeExpr.Grammar
import TypeGraph.Proofs.TypeExpr.Productions

/-!
# Every type that is read is derived

What a reader of types takes off the front of its input derives the tree that it gives. The fact is
told of one reader at a time, of its tokens rather than of its input, so that the step from a
production to the next is a step along the reader's text; the types inside come by induction on the
nesting.
-/

namespace TypeGraph

namespace TypeReader

open Reader

variable {α β : Type} {relates : List Token → α → Prop} {gives : List Token → β → Prop}

/-- Whether what a reader takes off its input relates to its value. -/
def Takes (reader : TypeReader α) (relates : List Token → α → Prop) : Prop :=
  ∀ ⦃input value rest⦄, reader.run input = .ok (value, rest) →
    ∃ taken, input = taken ++ rest ∧ relates (taken.map Lexeme.token) value

/-- Whether what a reader takes relates to its value on the inputs that go on with some tokens. -/
def TakesFrom (tokens : List Token) (reader : TypeReader α)
    (relates : List Token → α → Prop) : Prop :=
  ∀ ⦃input value rest⦄, firstTwo input = tokens → reader.run input = .ok (value, rest) →
    ∃ taken, input = taken ++ rest ∧ relates (taken.map Lexeme.token) value

/-- Whether what a reader takes derives the phrase of its value. -/
abbrev Parses (reader : TypeReader α) (phrase : α → Phrase) : Prop :=
  Takes reader fun tokens value => Derives tokens (phrase value)

/-! ## Steps -/

theorem takes_pure {value : α} (nothing : relates [] value) : Takes (pure value) relates := by
  intro input _ _ ran
  cases ran
  exact ⟨[], rfl, nothing⟩

theorem takes_fail (error : List Lexeme → TypeTextError) : Takes (fail error) relates := by
  intro input value rest ran
  cases ran

theorem takes_unexpected (expectation : Expectation) :
    Takes (unexpected expectation : TypeReader α) relates :=
  takes_fail _

theorem Takes.mono
    {reader : TypeReader α} {weaker : List Token → α → Prop}
    (takes : Takes reader relates)
    (implies : ∀ tokens value, relates tokens value → weaker tokens value) :
    Takes reader weaker := by
  intro input value rest ran
  obtain ⟨taken, shape, related⟩ := takes ran
  exact ⟨taken, shape, implies _ _ related⟩

/-- Two steps take what the first one takes and then what the second does. -/
theorem Takes.bind
    {first : TypeReader α} {next : α → TypeReader β}
    (takes : Takes first relates)
    (later : ∀ tokens value, relates tokens value →
      Takes (next value) fun others result => gives (tokens ++ others) result) :
    Takes (first >>= next) gives := by
  intro input result rest ran
  rw [run_bind] at ran
  cases firstRan : first.run input with
  | error error =>
      rw [firstRan] at ran
      cases ran
  | ok success =>
      obtain ⟨value, middle⟩ := success
      rw [firstRan] at ran
      obtain ⟨front, shape, related⟩ := takes firstRan
      obtain ⟨others, middleShape, given⟩ := later _ _ related ran
      refine ⟨front ++ others, ?_, ?_⟩
      · rw [shape, middleShape, List.append_assoc]
      · rw [List.map_append]
        exact given

theorem takes_if
    {found : Bool} {present absent : TypeReader α}
    (whenPresent : Takes present relates)
    (whenAbsent : Takes absent relates) :
    Takes (if found = true then present else absent) relates := by
  cases found with
  | false =>
      exact whenAbsent
  | true =>
      exact whenPresent

theorem takes_next (inClass : Lexeme → Bool) :
    Takes (next inClass) fun tokens _ => tokens = [] := by
  intro input value rest ran
  refine ⟨[], ?_, rfl⟩
  cases input <;> cases ran <;> rfl

theorem takes_within
    {inner : Option Level} {read : Level → TypeReader α}
    (takes : ∀ level, inner = some level → Takes (read level) relates) :
    Takes (within inner read) relates := by
  cases inner with
  | none =>
      exact takes_fail _
  | some level =>
      exact takes level rfl

/-! ## Single tokens -/

/-- Whether a class of lexemes holds no tokens but some choices. -/
def Among (choices : List Token) (inClass : Lexeme → Bool) : Prop :=
  ∀ lexeme, inClass lexeme → lexeme.token ∈ choices

theorem among_symbol (kind : Symbol) : Among [.symbol kind] (isSymbol kind) := by
  intro lexeme member
  exact List.mem_singleton.mpr (eq_of_beq member)

theorem among_word (word : String) : Among [.name word] (isWord word) := by
  intro lexeme member
  exact List.mem_singleton.mpr (eq_of_beq member)

theorem Among.or
    {first second : Token} {firstClass secondClass : Lexeme → Bool}
    (left : Among [first] firstClass)
    (right : Among [second] secondClass) :
    Among [first, second] fun lexeme => firstClass lexeme || secondClass lexeme := by
  intro lexeme member
  rcases Bool.or_eq_true_iff.mp member with inFirst | inSecond
  · exact List.mem_append_left [second] (left lexeme inFirst)
  · exact List.mem_append_right [first] (right lexeme inSecond)

/-- What is taken when a token is accepted, and when it is not. -/
inductive Accepts (choices : List Token) : List Token → Bool → Prop where
  | absent : Accepts choices [] false
  | present {token : Token} : token ∈ choices → Accepts choices [token] true

theorem Accepts.optionally
    {choices tokens : List Token} {found : Bool} (accepts : Accepts choices tokens found) :
    Optionally choices tokens := by
  cases accepts with
  | absent =>
      exact .absent
  | present member =>
      exact .present member

theorem takes_accept
    {choices : List Token} {inClass : Lexeme → Bool} (among : Among choices inClass) :
    Takes (accept inClass) (Accepts choices) := by
  intro input value rest ran
  cases input with
  | nil =>
      cases ran
      exact ⟨[], rfl, .absent⟩
  | cons head tail =>
      rw [run_accept_cons] at ran
      split at ran
      · next member =>
        cases ran
        exact ⟨[head], rfl, .present (among head member)⟩
      · cases ran
        exact ⟨[], rfl, .absent⟩

theorem takes_accept_if
    {choices : List Token} {inClass : Lexeme → Bool} {present absent : TypeReader α}
    (among : Among choices inClass)
    (whenPresent : ∀ token ∈ choices,
      Takes present fun others value => relates (token :: others) value)
    (whenAbsent : Takes absent relates) :
    Takes (accept inClass >>= fun found => if found = true then present else absent) relates := by
  refine (takes_accept among).bind fun tokens found accepts => ?_
  cases accepts with
  | absent =>
      exact whenAbsent
  | present member =>
      exact whenPresent _ member

theorem takes_acceptSymbol_if
    {kind : Symbol} {present absent : TypeReader α}
    (whenPresent : Takes present fun others value => relates (.symbol kind :: others) value)
    (whenAbsent : Takes absent relates) :
    Takes (acceptSymbol kind >>= fun found => if found = true then present else absent)
      relates := by
  refine takes_accept_if (among_symbol kind) (fun token member => ?_) whenAbsent
  rw [List.mem_singleton.mp member]
  exact whenPresent

theorem takes_acceptWord_if
    {word : String} {present absent : TypeReader α}
    (whenPresent : Takes present fun others value => relates (.name word :: others) value)
    (whenAbsent : Takes absent relates) :
    Takes (acceptWord word >>= fun found => if found = true then present else absent) relates := by
  refine takes_accept_if (among_word word) (fun token member => ?_) whenAbsent
  rw [List.mem_singleton.mp member]
  exact whenPresent

theorem takes_expect (kind : Symbol) (place : Place) :
    Takes (expect kind place) fun tokens _ => tokens = [.symbol kind] := by
  intro input value rest ran
  cases input with
  | nil =>
      cases ran
  | cons head tail =>
      rw [run_expect_cons] at ran
      split at ran
      · next member =>
        cases ran
        exact ⟨[head], rfl, congrArg (fun token => [token]) (eq_of_beq member)⟩
      · cases ran

theorem takes_expect_bind
    {kind : Symbol} {place : Place} {next : Unit → TypeReader β}
    (later : Takes (next ()) fun others result => gives (.symbol kind :: others) result) :
    Takes (expect kind place >>= next) gives := by
  refine (takes_expect kind place).bind fun tokens _ shape => ?_
  rw [shape]
  exact later

theorem takes_name (place : Place) :
    Takes (name place) fun tokens text => tokens = [.name text] := by
  intro input value rest ran
  cases input with
  | nil =>
      cases ran
  | cons head tail =>
      by_cases named : ∃ text, head.token = .name text
      · obtain ⟨text, token⟩ := named
        rw [run_name_of_eq token] at ran
        cases ran
        exact ⟨[head], rfl, congrArg (fun token => [token]) token⟩
      · rw [run_name_of_ne (not_exists.mp named)] at ran
        cases ran

theorem takes_name_bind
    {place : Place} {next : String → TypeReader β}
    (later : ∀ text, Takes (next text) fun others result => gives (.name text :: others) result) :
    Takes (name place >>= next) gives := by
  refine (takes_name place).bind fun tokens text shape => ?_
  rw [shape]
  exact later text

theorem parses_name (place : Place) : Parses (name place) .name := by
  refine (takes_name place).mono fun tokens text shape => ?_
  rw [shape]
  exact .name text

/-! ## Decisions on two tokens -/

theorem Takes.takesFrom
    {reader : TypeReader α} (takes : Takes reader relates) (tokens : List Token) :
    TakesFrom tokens reader relates :=
  fun _ _ _ _ ran => takes ran

theorem takes_nextTwo
    {branch : List Token → TypeReader α}
    (takes : ∀ tokens, TakesFrom tokens (branch tokens) relates) :
    Takes (nextTwo >>= branch) relates :=
  fun input _ _ ran => takes (firstTwo input) rfl ran

theorem takesFrom_skip_one
    {token : Token} {tokens : List Token} {next : Unit → TypeReader α}
    (later : Takes (next ()) fun others value => relates (token :: others) value) :
    TakesFrom (token :: tokens) (skip 1 >>= next) relates := by
  intro input value rest peek ran
  cases input with
  | nil =>
      cases peek
  | cons head tail =>
      obtain ⟨taken, shape, related⟩ := later ran
      have same : head.token = token := (List.cons.inj peek).1
      refine ⟨head :: taken, congrArg (head :: ·) shape, ?_⟩
      rw [List.map_cons, same]
      exact related

theorem takesFrom_skip_two
    {first second : Token} {next : Unit → TypeReader α}
    (later : Takes (next ()) fun others value => relates (first :: second :: others) value) :
    TakesFrom [first, second] (skip 2 >>= next) relates := by
  intro input value rest peek ran
  rcases input with _ | ⟨head, _ | ⟨follower, tail⟩⟩
  · cases peek
  · cases peek
  · cases peek
    obtain ⟨taken, shape, related⟩ := later ran
    exact ⟨head :: follower :: taken, congrArg (head :: follower :: ·) shape, related⟩

theorem takesFrom_remaining
    {tokens : List Token} {next : List Lexeme → TypeReader α}
    (later : ∀ input, TakesFrom tokens (next input) relates) :
    TakesFrom tokens (remaining >>= next) relates :=
  fun input _ _ peek ran => later input peek ran

/-! ## Lists -/

/-- Items that each follow a symbol. -/
inductive Headed (separator : Symbol) (relates : List Token → α → Prop) :
    List Token → List α → Prop where
  | done : Headed separator relates [] []
  | more {tokens others : List Token} {value : α} {values : List α} :
      relates tokens value → Headed separator relates others values →
      Headed separator relates (.symbol separator :: (tokens ++ others)) (value :: values)

theorem takes_separatedItems
    {separator : Symbol} {item : TypeReader α} (takes : Takes item relates) :
    Takes (separatedItems (isSymbol separator) item) (Headed separator relates) := by
  intro input values rest ran
  change separatedFrom (isSymbol separator) item input = _ at ran
  fun_induction separatedFrom (isSymbol separator) item input generalizing values with
  | case1 =>
      cases ran
      exact ⟨[], rfl, .done⟩
  | case2 =>
      cases ran
  | case3 =>
      cases ran
  | case4 head tail separates value middle itemRan others final othersRan inner =>
      cases ran
      obtain ⟨taken, shape, related⟩ := takes itemRan
      obtain ⟨behind, behindShape, headed⟩ := inner othersRan
      refine ⟨head :: (taken ++ behind), ?_, ?_⟩
      · rw [shape, behindShape, List.cons_append, List.append_assoc]
      · rw [List.map_cons, List.map_append, eq_of_beq separates]
        exact .more related headed
  | case5 =>
      cases ran
      exact ⟨[], rfl, .done⟩

/-- Items with a symbol between every two, and perhaps one behind the last. -/
inductive Runs (separators : List Token) (relates : List Token → α → Prop) :
    List Token → List α → Prop where
  | none : Runs separators relates [] []
  | last {tokens : List Token} {value : α} :
      relates tokens value → Runs separators relates tokens [value]
  | more {separator : Token} {tokens others : List Token} {value : α} {values : List α} :
      relates tokens value → separator ∈ separators → Runs separators relates others values →
      Runs separators relates (tokens ++ separator :: others) (value :: values)

theorem takes_untilClosed
    {separators : List Token} {closes isSeparator : Lexeme → Bool} {item : TypeReader α}
    (among : Among separators isSeparator)
    (takes : Takes item relates) :
    Takes (untilClosed closes isSeparator item) (Runs separators relates) := by
  intro input values rest ran
  change untilClosedFrom closes isSeparator item input = _ at ran
  fun_induction untilClosedFrom closes isSeparator item input generalizing values with
  | case1 =>
      cases ran
      exact ⟨[], rfl, .none⟩
  | case2 =>
      cases ran
  | case3 input notClosed value itemRan =>
      cases ran
      obtain ⟨taken, shape, related⟩ := takes itemRan
      exact ⟨taken, shape, .last related⟩
  | case4 =>
      cases ran
  | case5 input notClosed value head tail itemRan separates others final othersRan inner =>
      cases ran
      obtain ⟨taken, shape, related⟩ := takes itemRan
      obtain ⟨behind, behindShape, runs⟩ := inner othersRan
      refine ⟨taken ++ head :: behind, ?_, ?_⟩
      · rw [shape, behindShape, List.append_assoc, List.cons_append]
      · rw [List.map_append, List.map_cons]
        exact .more related (among head separates) runs
  | case6 input notClosed value head tail itemRan =>
      cases ran
      obtain ⟨taken, shape, related⟩ := takes itemRan
      exact ⟨taken, shape, .last related⟩

theorem Headed.derives_separated
    {separator : Separator} {phrase : α → Phrase} {tokens others : List Token}
    {value : α} {values : List α}
    (first : Derives tokens (phrase value))
    (headed :
      Headed separator.symbol (fun tokens value => Derives tokens (phrase value)) others values) :
    Derives (tokens ++ others) (.separated separator ((value :: values).map phrase)) := by
  induction headed generalizing tokens value with
  | done =>
      rw [List.append_nil]
      exact .single first
  | more second _ inner =>
      exact .more first (inner second)

theorem parses_separated
    (separator : Separator) {item : TypeReader α} {phrase : α → Phrase}
    (parses : Parses item phrase) :
    Parses (separated (isSymbol separator.symbol) item)
      fun values => .separated separator (values.map phrase) := by
  refine Takes.bind parses fun tokens value first => ?_
  refine (takes_separatedItems parses).bind fun others values headed => takes_pure ?_
  rw [List.append_nil]
  exact headed.derives_separated first

/-- A list with commas is empty, or it is one without the comma that may stand behind it. -/
theorem Runs.derives_separated
    {phrase : α → Phrase} {tokens : List Token} {values : List α}
    (runs : Runs [.symbol .comma] (fun tokens value => Derives tokens (phrase value))
      tokens values) :
    (tokens = [] ∧ values = []) ∨
      ∃ front final, tokens = front ++ final ∧ Optionally [.symbol .comma] final ∧
        Derives front (.separated .comma (values.map phrase)) := by
  induction runs with
  | none =>
      exact Or.inl ⟨rfl, rfl⟩
  | @last tokens value derives =>
      exact Or.inr ⟨tokens, [], (List.append_nil tokens).symm, .absent, .single derives⟩
  | @more separator tokens others value values derives member _ inner =>
      rcases inner with ⟨rfl, rfl⟩ | ⟨front, final, rfl, comma, listed⟩
      · exact Or.inr ⟨tokens, [separator], rfl, .present member, .single derives⟩
      · refine Or.inr ⟨tokens ++ separator :: front, final, ?_, comma, ?_⟩
        · rw [List.append_assoc, List.cons_append]
        · rw [List.mem_singleton.mp member]
          exact .more derives listed

theorem Runs.derives_listed
    {phrase : α → Phrase} {tokens : List Token} {values : List α}
    (runs : Runs [.symbol .comma] (fun tokens value => Derives tokens (phrase value))
      tokens values) :
    Derives tokens (.listed (values.map phrase)) := by
  rcases runs.derives_separated with ⟨rfl, rfl⟩ | ⟨front, final, rfl, comma, separated⟩
  · exact .nothing
  · exact .listed separated comma

theorem Runs.derives_members
    {tokens : List Token} {values : List Member}
    (runs : Runs [.symbol .semicolon, .symbol .comma]
      (fun tokens value => Derives tokens (.member value)) tokens values) :
    Derives tokens (.members values) := by
  induction runs with
  | none =>
      exact .noMembers
  | last derives =>
      have alone := Derives.members derives .absent .noMembers
      rwa [List.append_nil, List.append_nil] at alone
  | more derives member _ inner =>
      exact .members derives (.present member) inner

theorem takes_expect_untilClosed
    {kind : Symbol} {place : Place} {separators : List Token} {isSeparator : Lexeme → Bool}
    {item : TypeReader α} {next : List α → TypeReader β}
    (among : Among separators isSeparator)
    (takes : Takes item relates)
    (later : ∀ tokens values, Runs separators relates tokens values →
      Takes (next values) fun others result =>
        gives (tokens ++ .symbol kind :: others) result) :
    Takes
      (untilClosed (isSymbol kind) isSeparator item >>= fun values =>
        expect kind place >>= fun _ => next values) gives :=
  (takes_untilClosed among takes).bind fun tokens values runs =>
    takes_expect_bind (later tokens values runs)

/-! ## Productions -/

variable {type : TypeReader TypeExpr}

theorem parses_optionalType
    {lead : Token} {inClass : Lexeme → Bool}
    (among : Among [lead] inClass)
    (types : Parses type .type) :
    Parses (optionalType (accept inClass) type) (.clause lead) := by
  refine takes_accept_if among (fun token member => ?_) (takes_pure (.noClause lead))
  refine Takes.bind types fun tokens tree derives => takes_pure ?_
  rw [List.mem_singleton.mp member, List.append_nil]
  exact .clause derives

theorem takes_typeArguments (types : Parses type .type) :
    Takes (typeArguments type) fun tokens trees =>
      ∃ arguments first others, tokens = arguments ++ [.symbol .greater] ∧
        trees = first :: others ∧ Derives arguments (.listed ((first :: others).map .type)) := by
  refine Takes.bind types fun tokens first derives => takes_acceptSymbol_if ?_ ?_
  · refine takes_expect_untilClosed (among_symbol .comma) types fun behind others runs => ?_
    have all : Runs [.symbol .comma] (fun tokens tree => Derives tokens (.type tree))
        (tokens ++ .symbol .comma :: behind) (first :: others) :=
      .more derives (List.mem_singleton_self _) runs
    refine takes_pure ⟨_, first, others, ?_, rfl, all.derives_listed⟩
    rw [List.append_assoc, List.cons_append]
  · have alone : Runs [.symbol .comma] (fun tokens tree => Derives tokens (.type tree))
        tokens [first] :=
      .last derives
    exact takes_expect_bind (takes_pure ⟨tokens, first, [], rfl, rfl, alone.derives_listed⟩)

theorem parses_reference
    {inner : Option Level}
    (types : ∀ level, inner = some level → Parses level.type .type) :
    Parses (reference inner) .reference := by
  refine Takes.bind (parses_separated .dot (parses_name _)) fun tokens path derives => ?_
  refine takes_acceptSymbol_if ?_ (takes_pure ?_)
  · have arguments := takes_within fun level same => takes_typeArguments (types level same)
    refine Takes.bind arguments fun behind trees listed => takes_pure ?_
    obtain ⟨inside, first, others, rfl, rfl, listed⟩ := listed
    rw [List.append_nil]
    exact .application derives listed
  · rw [List.append_nil]
    exact .path derives

theorem parses_tupleElement (types : Parses type .type) : Parses (tupleElement type) .element := by
  refine (takes_accept (among_symbol .ellipsis)).bind fun dots spread accepts => ?_
  refine Takes.bind types fun tokens tree derives => ?_
  refine (takes_accept (among_symbol .question)).bind fun mark _ marks => takes_pure ?_
  rw [List.append_nil mark]
  cases accepts with
  | absent =>
      rw [List.nil_append]
      exact .element derives marks.optionally
  | present member =>
      rw [List.mem_singleton.mp member, List.singleton_append]
      exact .spread derives marks.optionally

theorem parses_tuple
    {inner : Option Level}
    (types : ∀ level, inner = some level → Parses level.type .type) :
    Parses (tuple inner) .primary := by
  refine takes_within fun level same => takes_expect_bind ?_
  refine takes_expect_untilClosed (among_symbol .comma)
    (parses_tupleElement (types level same)) fun tokens elements runs => takes_pure ?_
  exact .tuple runs.derives_listed

theorem parses_typeParameter (types : Parses type .type) :
    Parses (typeParameter type) .typeParameter := by
  refine takes_name_bind fun text => ?_
  refine Takes.bind (parses_optionalType (among_word "extends") types)
    fun constraint constraintTree bounds => ?_
  refine Takes.bind (parses_optionalType (among_symbol .equals) types)
    fun default defaultTree defaults => takes_pure ?_
  rw [List.append_nil]
  exact .typeParameter text bounds defaults

theorem parses_typeParameters (types : Parses type .type) :
    Parses (typeParameters type) .generics := by
  refine takes_acceptSymbol_if ?_ (takes_pure .noGenerics)
  refine takes_expect_untilClosed (among_symbol .comma) (parses_typeParameter types)
    fun tokens trees runs => takes_pure (.generics ?_)
  rcases runs.derives_separated with ⟨rfl, rfl⟩ | ⟨front, final, rfl, comma, separated⟩
  · exact .noTypeParameters
  · exact .typeParameters separated comma

theorem parses_parameter (types : Parses type .type) : Parses (parameter type) .parameter := by
  refine (takes_accept (among_symbol .ellipsis)).bind fun dots _ spreads => ?_
  refine takes_name_bind fun text => ?_
  refine (takes_accept (among_symbol .question)).bind fun mark _ marks => ?_
  refine Takes.bind (parses_optionalType (among_symbol .colon) types)
    fun tokens tree derives => takes_pure ?_
  rw [List.append_nil]
  exact .parameter text spreads.optionally marks.optionally derives

theorem parses_parameters (types : Parses type .type) : Parses (parameters type) .parameters := by
  refine takes_expect_bind ?_
  refine takes_expect_untilClosed (among_symbol .comma) (parses_parameter types)
    fun tokens trees runs => takes_pure ?_
  exact .parameters runs.derives_listed

theorem parses_result (types : Parses type .type) : Parses (result type) .result := by
  refine takes_nextTwo fun tokens => ?_
  split
  · next text =>
    refine takesFrom_skip_two (takes_acceptWord_if ?_ (takes_pure (.assertion text)))
    exact types.mono fun _ _ derives =>
      .predicate text (.present (List.mem_singleton_self _)) derives
  · next text _ =>
    refine takesFrom_skip_two ?_
    exact types.mono fun _ _ derives => .predicate text .absent derives
  · refine Takes.takesFrom ?_ tokens
    exact types.mono fun _ _ derives => .result derives

/-- A function, after the word `new` if there was one. -/
theorem takes_function
    {inner : Option Level}
    (types : ∀ level, inner = some level → Parses level.type .type)
    {lead : List Token} (opens : Optionally [.name "new"] lead) :
    Takes (function inner) fun tokens tree => Derives (lead ++ tokens) (.primary tree) := by
  refine takes_within fun level same => ?_
  refine Takes.bind (parses_typeParameters (types level same)) fun generics trees binds => ?_
  refine Takes.bind (parses_parameters (types level same)) fun parameters values lists => ?_
  refine takes_expect_bind ?_
  refine Takes.bind (parses_result (types level same)) fun tokens tree gives => takes_pure ?_
  rw [List.append_nil]
  exact .callable (.function opens binds lists gives)

theorem takes_method
    (types : Parses type .type)
    {key : Token} {text : String} (isKey : key.IsKey text)
    {mark : List Token} (marks : Optionally [.symbol .question] mark) :
    Takes (method type) fun tokens tree =>
      Derives (key :: (mark ++ tokens)) (.plainMember (.property text tree)) := by
  refine Takes.bind (parses_typeParameters types) fun generics trees binds => ?_
  refine Takes.bind (parses_parameters types) fun parameters values lists => ?_
  refine takes_acceptSymbol_if ?_ (takes_pure ?_)
  · refine Takes.bind (parses_result types) fun tokens tree gives => takes_pure ?_
    rw [List.append_nil]
    exact .method isKey marks binds lists (.methodResult gives)
  · exact .method isKey marks binds lists .anyResult

theorem takes_propertyValue
    (types : Parses type .type)
    {key : Token} {text : String} (isKey : key.IsKey text) :
    Takes (propertyValue type text) fun tokens tree =>
      Derives (key :: tokens) (.plainMember tree) := by
  refine (takes_accept (among_symbol .question)).bind fun mark _ marks => ?_
  refine (takes_next _).bind fun nothing _ shape => ?_
  rw [shape]
  refine takes_if ?_ ?_
  · refine (takes_method types isKey marks.optionally).bind fun tokens tree derives => takes_pure ?_
    rw [List.append_nil]
    exact derives
  · refine takes_expect_bind ?_
    refine Takes.bind types fun tokens tree derives => takes_pure ?_
    rw [List.append_nil]
    exact .property isKey marks.optionally derives

theorem parses_property (types : Parses type .type) : Parses (property type) .plainMember := by
  refine takes_nextTwo fun tokens => ?_
  split
  · exact takesFrom_skip_one (takes_propertyValue types (.name _))
  · exact takesFrom_skip_one (takes_propertyValue types (.string _))
  · exact takesFrom_skip_one (takes_propertyValue types (.number _))
  · exact (takes_unexpected _).takesFrom tokens

theorem takes_mappedModifier :
    Takes mappedModifier fun tokens _ => ∃ sign mark, tokens = sign ++ mark ∧
      Optionally [.symbol .plus, .symbol .minus] sign ∧
      Optionally [.symbol .question] mark := by
  refine takes_accept_if ((among_symbol .plus).or (among_symbol .minus)) (fun token member => ?_) ?_
  · refine (takes_expect .question _).mono fun tokens _ shape => ?_
    rw [shape]
    exact ⟨[token], [.symbol .question], rfl, .present member,
      .present (List.mem_singleton_self _)⟩
  · refine (takes_accept (among_symbol .question)).bind fun mark _ marks => takes_pure ?_
    exact ⟨[], mark, List.append_nil mark, .absent, marks.optionally⟩

theorem takes_bracketedMember (types : Parses type .type) :
    Takes (bracketedMember type) fun tokens tree =>
      Derives (.symbol .openBracket :: tokens) (.plainMember tree) := by
  refine takes_name_bind fun text => ?_
  refine takes_acceptWord_if ?_ ?_
  · refine Takes.bind types fun source sourceTree derivesSource => ?_
    refine Takes.bind (parses_optionalType (among_word "as") types)
      fun rename renameTree renames => ?_
    refine takes_expect_bind ?_
    refine takes_mappedModifier.bind fun modifier _ modifies => ?_
    obtain ⟨sign, mark, rfl, signs, marks⟩ := modifies
    refine takes_expect_bind ?_
    refine Takes.bind types fun tokens tree derives => takes_pure ?_
    rw [List.append_nil, List.append_assoc]
    exact .mapped text derivesSource renames signs marks derives
  · refine takes_expect_bind ?_
    refine Takes.bind types fun key keyTree derivesKey => ?_
    refine takes_expect_bind (takes_expect_bind ?_)
    refine Takes.bind types fun tokens tree derives => takes_pure ?_
    rw [List.append_nil]
    exact .index text derivesKey derives

theorem takes_readonlySign :
    Takes readonlySign fun tokens _ => Optionally [.symbol .plus, .symbol .minus] tokens := by
  refine takes_nextTwo fun tokens => ?_
  split
  · exact takesFrom_skip_one (takes_pure (.present (by decide)))
  · exact takesFrom_skip_one (takes_pure (.present (by decide)))
  · exact (takes_pure .absent).takesFrom tokens

theorem takes_readonlyWord :
    Takes readonlyWord fun tokens _ => Optionally [.name "readonly"] tokens := by
  refine takes_nextTwo fun tokens => ?_
  split
  · exact (takes_pure .absent).takesFrom _
  · exact (takes_pure .absent).takesFrom _
  · exact (takes_pure .absent).takesFrom _
  · exact (takes_pure .absent).takesFrom _
  · exact takesFrom_skip_one (takes_pure (.present (List.mem_singleton_self _)))
  · exact (takes_pure .absent).takesFrom tokens

theorem parses_member (types : Parses type .type) : Parses (member type) .member := by
  refine takes_readonlySign.bind fun sign _ signs => ?_
  refine takes_readonlyWord.bind fun modifier _ modifies => ?_
  refine takes_acceptSymbol_if ?_ ?_
  · exact (takes_bracketedMember types).mono fun _ _ derives => .member signs modifies derives
  · exact Takes.mono (parses_property types) fun _ _ derives => .member signs modifies derives

theorem parses_object
    {inner : Option Level}
    (types : ∀ level, inner = some level → Parses level.type .type) :
    Parses (object inner) .primary := by
  refine takes_within fun level same => takes_expect_bind ?_
  refine takes_expect_untilClosed ((among_symbol .semicolon).or (among_symbol .comma))
    (parses_member (types level same)) fun tokens trees runs => takes_pure ?_
  exact .object runs.derives_members

/-! ## Types -/

/-- Whether what the readers of a level take derives the types that they give. -/
structure Sound (level : Level) : Prop where
  type : Parses level.type .type
  operand : Parses level.operand .operand

section Nested

variable {inner : Option Level} (sound : ∀ level, inner = some level → Sound level)

theorem takesFrom_negativeNumber (tokens : List Token) :
    TakesFrom (.symbol .minus :: tokens) negativeNumber
      fun tokens tree => Derives tokens (.primary tree) := by
  refine takesFrom_skip_one (takes_nextTwo fun tokens => ?_)
  split
  · exact takesFrom_skip_one (takes_pure (.negative _))
  · exact (takes_unexpected _).takesFrom tokens

theorem takesFrom_parenthesized (types : Parses type .type) (tokens : List Token) :
    TakesFrom (.symbol .openParen :: tokens) (parenthesized type)
      fun tokens tree => Derives tokens (.primary tree) := by
  refine takesFrom_skip_one ?_
  exact Takes.bind types fun tokens tree derives =>
    takes_expect_bind (takes_pure (.parenthesized derives))

include sound

theorem takesFrom_operationOrReference (word : String) (followers : List Token) :
    TakesFrom (.name word :: followers) (operationOrReference inner word followers.head?)
      fun tokens tree => Derives tokens (.primary tree) := by
  unfold operationOrReference
  split
  · next _ _ operator spelled _ =>
    have found := List.find?_some spelled
    have written : operator.word = word := eq_of_beq found
    have operands := takes_within fun level same => (sound level same).operand
    refine takesFrom_skip_one (Takes.bind operands fun tokens tree derives => takes_pure ?_)
    rw [List.append_nil, ← written]
    exact .operation operator derives
  · have references := parses_reference fun level same => (sound level same).type
    exact (references.mono fun _ _ derives => .reference derives).takesFrom _

theorem parses_primary (types : Parses type .type) : Parses (primary type inner) .primary := by
  have inside : ∀ level, inner = some level → Parses level.type .type :=
    fun level same => (sound level same).type
  have functions := takes_function inside .absent
  refine takes_nextTwo fun tokens => ?_
  split
  · exact takesFrom_skip_two (takes_pure (.infer _))
  · exact takesFrom_skip_one (takes_function inside (.present (List.mem_singleton_self _)))
  · exact takesFrom_skip_one (takes_function inside (.present (List.mem_singleton_self _)))
  · exact takesFrom_operationOrReference sound _ _
  · exact takesFrom_skip_one (takes_pure (.string _))
  · exact takesFrom_skip_one (takes_pure (.number _))
  · exact functions.takesFrom _
  · refine takesFrom_remaining fun input => ?_
    split
    · exact functions.takesFrom _
    · exact takesFrom_parenthesized types _
  · exact takesFrom_negativeNumber _
  · exact Takes.takesFrom (parses_tuple inside) _
  · exact Takes.takesFrom (parses_object inside) _
  · exact (takes_unexpected _).takesFrom tokens

end Nested

/-- What stands in brackets behind a type, with the closing bracket. -/
inductive Accesses : List Token → Option TypeExpr → Prop where
  | array : Accesses [.symbol .closeBracket] none
  | index {tree : TypeExpr} {tokens : List Token} :
      Derives tokens (.type tree) → Accesses (tokens ++ [.symbol .closeBracket]) (some tree)

theorem takes_accessBody (types : Parses type .type) : Takes (accessBody type) Accesses := by
  refine takes_acceptSymbol_if (takes_pure .array) ?_
  exact Takes.bind types fun tokens tree derives => takes_expect_bind (takes_pure (.index derives))

/-- Brackets behind an operand make operands of it, from the inside to the outside. -/
theorem Headed.derives_operand
    {base : TypeExpr} {tokens others : List Token} {accesses : List (Option TypeExpr)}
    (derives : Derives tokens (.operand base))
    (headed : Headed .openBracket Accesses others accesses) :
    Derives (tokens ++ others) (.operand (accesses.foldl access base)) := by
  induction headed generalizing tokens base with
  | done =>
      rw [List.append_nil]
      exact derives
  | more accessed _ inner =>
      cases accessed with
      | array =>
          have later := inner (.array derives)
          rwa [List.append_assoc] at later
      | index derivesIndex =>
          have later := inner (.indexed derives derivesIndex)
          rwa [List.append_assoc] at later

theorem parses_suffixed
    {inner : Option Level}
    (sound : ∀ level, inner = some level → Sound level)
    (types : Parses type .type) :
    Parses (suffixed type inner) .operand := by
  refine Takes.bind (parses_primary sound types) fun tokens base derives => ?_
  refine (takes_separatedItems (takes_accessBody types)).bind fun others accesses headed =>
    takes_pure ?_
  rw [List.append_nil]
  exact headed.derives_operand (.primary derives)

theorem parses_intersection
    {operand : TypeReader TypeExpr} (operands : Parses operand .operand) :
    Parses (intersection operand) .intersection := by
  refine (takes_accept (among_symbol .ampersand)).bind fun lead _ leads => ?_
  refine Takes.bind (parses_separated .ampersand operands) fun tokens parts derives => takes_pure ?_
  rw [List.append_nil]
  exact .intersection leads.optionally derives

theorem parses_union
    {operand : TypeReader TypeExpr} (operands : Parses operand .operand) :
    Parses (union operand) .union := by
  refine (takes_accept (among_symbol .pipe)).bind fun lead _ leads => ?_
  refine Takes.bind (parses_separated .pipe (parses_intersection operands))
    fun tokens parts derives => takes_pure ?_
  rw [List.append_nil]
  exact .union leads.optionally derives

theorem parses_complete {level : Level} (sound : Sound level) : Parses (complete level) .type := by
  have unions := parses_union sound.operand
  refine Takes.bind unions fun check checkTree checks => takes_acceptWord_if ?_ (takes_pure ?_)
  · refine Takes.bind unions fun bound boundTree bounds => takes_expect_bind ?_
    refine Takes.bind sound.type fun whenTrue trueTree holds => takes_expect_bind ?_
    refine Takes.bind sound.type fun whenFalse falseTree fails => takes_pure ?_
    rw [List.append_nil]
    exact .conditional checks bounds holds fails
  · rw [List.append_nil]
    exact .unconditional checks

theorem sound_level (nesting : Nat) : Sound (level nesting) := by
  induction nesting with
  | zero =>
      have type : Parses (fail fun _ => .tooDeep) .type := takes_fail _
      exact ⟨type, parses_suffixed nofun type⟩
  | succ nesting sound =>
      have type := parses_complete sound
      refine ⟨type, parses_suffixed (fun level same => ?_) type⟩
      cases same
      exact sound

theorem derives_of_ofLexemes
    {lexemes : List Lexeme} {type : TypeExpr}
    (spells : TypeExpr.ofLexemes? lexemes = .ok type) :
    Derives (lexemes.map Lexeme.token) (.type type) := by
  unfold TypeExpr.ofLexemes? at spells
  split at spells
  · cases spells
  · next found =>
    cases spells
    obtain ⟨taken, shape, derives⟩ := (sound_level greatestNesting).type found
    rw [shape, List.append_nil]
    exact derives
  · cases spells

end TypeReader

namespace TypeExpr

/-- The tokens of a text that is a type expression derive it. -/
theorem derives_of_parse
    {text : String} {type : TypeExpr} (parsed : parse text = .ok type) :
    ∃ lexemes, Lexeme.ofTypeText text = .ok lexemes ∧
      Derives (lexemes.map Lexeme.token) (.type type) := by
  rw [parse] at parsed
  cases cut : Lexeme.ofTypeText text with
  | error error =>
      rw [cut] at parsed
      cases parsed
  | ok lexemes =>
      rw [cut] at parsed
      exact ⟨lexemes, rfl, TypeReader.derives_of_ofLexemes parsed⟩

/-- A method without a result, an empty list of type parameters, an assertion without a type, and
separators in front of a first part and behind a last one. -/
def mixedText : String :=
  "\x7b m?(a) \x7d extends new <>() => asserts x ? -2[] : | A.B<C,>"

def mixedType : TypeExpr :=
  .conditional
    (.object [.property "m" (.function [] [.mk "a" none] (.named "any"))])
    (.function [] [] (.named "void"))
    (.array (.number "-2"))
    (.reference ["A", "B"] [.named "C"])

theorem derives_of_parse_mixed :
    parse mixedText = .ok mixedType ∧
      ∃ lexemes, Lexeme.ofTypeText mixedText = .ok lexemes ∧
        Derives (lexemes.map Lexeme.token) (.type mixedType) := by
  have parsed : parse mixedText = .ok mixedType := by
    with_unfolding_all rfl
  exact ⟨parsed, derives_of_parse parsed⟩

end TypeExpr

end TypeGraph
