import TypeGraph.Proofs.TypeExpr.Spelling
import TypeGraph.Proofs.TypeExpr.Triples

/-!
# When the nesting is exhausted

A reader that gives up for the nesting has as many levels open by then as it was allowed. A type
settles the operators in front of it and an operand does not, and what stands in a list only keeps
the brackets around it.
-/

namespace TypeGraph

namespace TypeReader

open Reader Openers

variable {α β : Type} {ahead : List Token} {openers : Openers} {floor : Nat}
  {holds : α → Openers → Prop} {gives : β → Openers → Prop}

/-! ## Types and items -/

/-- Whether a reader of types at a nesting keeps what no operand is awaited for. -/
def TypeKeeps (nesting : Nat) (type : TypeReader TypeExpr) : Prop :=
  ∀ openers, Keeps [] openers (openers.settled.levels + nesting) type
    fun _ behind => Over openers.settled behind

/-- Whether a reader of operands at a nesting keeps all that is open. -/
def OperandKeeps (nesting : Nat) (operand : TypeReader TypeExpr) : Prop :=
  ∀ openers, Keeps [] openers (openers.levels + nesting) operand
    fun _ behind => Over openers behind

/-- Whether a reader of items at a nesting keeps the brackets around. -/
def ItemKeeps (nesting : Nat) (item : TypeReader α) : Prop :=
  ∀ ⦃base openers : Openers⦄, openers.ground = base →
    Keeps [] openers (base.levels + nesting) item fun _ behind => behind.ground = base

/-- Whether a reader of brackets at a nesting leaves what was open in front of them. -/
def BracketKeeps (nesting : Nat) (brackets : TypeReader α) : Prop :=
  ∀ openers, Keeps [] openers (openers.levels + nesting) brackets fun _ behind => behind = openers

variable {nesting : Nat} {type : TypeReader TypeExpr} {base : Openers}

theorem TypeKeeps.item (types : TypeKeeps nesting type) : ItemKeeps nesting type := by
  rintro base openers rfl
  refine (types openers).mono ?_ fun _ behind above => ?_
  · exact Nat.add_le_add_right (levels_ground_le_settled openers) nesting
  · rw [above.ground, ground_settled]

theorem OperandKeeps.settles {operand : TypeReader TypeExpr}
    (operands : OperandKeeps nesting operand) : TypeKeeps nesting operand := by
  intro openers
  refine (operands openers).mono ?_ fun _ behind above => (over_settled openers).trans above
  exact Nat.add_le_add_right (over_settled openers).levels_le nesting

/-- A colon opens a level of its own for the type behind it. -/
theorem TypeKeeps.behindColon
    (types : TypeKeeps nesting type) (around : openers.ground = base) :
    Keeps [] (openers.afterSymbol .colon) (base.levels + (nesting + 1)) type
      fun _ behind => behind.ground = base := by
  cases around
  refine (types (openers.afterSymbol .colon)).mono ?_ fun _ behind above => ?_
  · have opened := levels_ground_lt_colon openers
    change openers.ground.levels + (nesting + 1) ≤ (openers.afterSymbol .colon).levels + nesting
    omega
  · rw [above.ground, ground_settled, ground_colon]

/-- Items have the levels of the bracket around them to themselves. -/
theorem ItemKeeps.inBracket
    {levels : Nat} {item : TypeReader α} (items : ItemKeeps nesting item)
    (around : openers.ground = .bracket levels :: base)
    (low : floor ≤ levels + base.levels + nesting) :
    Keeps [] openers floor item fun _ behind => behind.ground = .bracket levels :: base :=
  (items around).lower low

/-- A closing bracket leaves what was open in front of the opening one. -/
theorem keeps_close_bind
    {levels : Nat} {kind : Symbol} {place : Place} {next : Unit → TypeReader β}
    (closes : ∀ openers : Openers, openers.afterSymbol kind = openers.ground.tail)
    (around : openers.ground = .bracket levels :: base)
    (later : Keeps [] base floor (next ()) gives) :
    Keeps [] openers floor (expect kind place >>= next) gives := by
  refine keeps_expect_bind ?_
  rw [closes, around]
  exact later

theorem keeps_untilClosed_expect
    {levels : Nat} {kind : Symbol} {place : Place} {separators : List Token}
    {isSeparator : Lexeme → Bool} {item : TypeReader α} {next : List α → TypeReader β}
    (closes : ∀ openers : Openers, openers.afterSymbol kind = openers.ground.tail)
    (among : Among separators isSeparator)
    (between : ∀ token ∈ separators, ∀ openers : Openers,
      (openers.after token).ground = openers.ground)
    (items : ItemKeeps nesting item)
    (around : openers.ground = .bracket levels :: base)
    (low : floor ≤ levels + base.levels + nesting)
    (later : ∀ values, Keeps [] base floor (next values) gives) :
    Keeps [] openers floor
      (untilClosed (isSymbol kind) isSeparator item >>= fun values =>
        expect kind place >>= fun _ => next values) gives := by
  have separates : ∀ token ∈ separators, ∀ behind : Openers,
      behind.ground = .bracket levels :: base →
        (behind.after token).ground = .bracket levels :: base :=
    fun token member behind same => (between token member behind).trans same
  have every : ∀ behind : Openers, behind.ground = .bracket levels :: base →
      Keeps [] behind floor item fun _ behind => behind.ground = .bracket levels :: base :=
    fun behind same => items.inBracket same low
  refine (keeps_untilClosed among separates every around).bind fun values behind same => ?_
  exact keeps_close_bind closes same (later values)

theorem ground_afterComma
    (token : Token) (member : token ∈ [Token.symbol .comma]) (openers : Openers) :
    (openers.after token).ground = openers.ground := by
  cases List.mem_singleton.mp member
  exact ground_ground openers

/-! ## Productions in brackets -/

/-- A symbol that may be left out and leaves the brackets around as they are. -/
theorem keeps_mark_bind
    {kind : Symbol} {next : Bool → TypeReader β}
    (flat : ∀ openers : Openers, (openers.afterSymbol kind).ground = openers.ground)
    (around : openers.ground = base)
    (later : ∀ found behind, behind.ground = base → Keeps [] behind floor (next found) gives) :
    Keeps ahead openers floor (acceptSymbol kind >>= next) gives := by
  have mark : Keeps ahead openers floor (acceptSymbol kind) fun _ behind => behind.ground = base :=
    keeps_acceptSymbol around ((flat openers).trans around)
  exact mark.bind later

theorem keeps_optionalType
    {lead : Token} {inClass : Lexeme → Bool}
    (among : Among [lead] inClass)
    (behindLead : ∀ openers : Openers, openers.ground = base →
      Keeps [] (openers.after lead) floor type fun _ behind => behind.ground = base)
    (around : openers.ground = base) :
    Keeps [] openers floor (optionalType (accept inClass) type)
      fun _ behind => behind.ground = base := by
  refine keeps_accept_if among (fun token member => ?_) (keeps_pure around)
  cases List.mem_singleton.mp member
  exact (behindLead openers around).bind fun _ _ kept => keeps_pure kept

theorem TypeKeeps.tupleElement (types : TypeKeeps nesting type) :
    ItemKeeps nesting (tupleElement type) := by
  intro base openers around
  refine keeps_mark_bind (fun _ => rfl) around fun spread behind around => ?_
  refine (types.item around).bind fun element behind around => ?_
  exact keeps_mark_bind ground_question around fun _ _ kept => keeps_pure kept

theorem TypeKeeps.typeParameter (types : TypeKeeps nesting type) :
    ItemKeeps nesting (typeParameter type) := by
  intro base openers around
  refine keeps_name_bind fun text => ?_
  have named := (ground_after_name openers text).trans around
  refine (keeps_optionalType (among_word "extends") (fun openers around => ?_) named).bind
    fun constraint behind around => ?_
  · exact types.item ((ground_after_name openers "extends").trans around)
  · refine (keeps_optionalType (among_symbol .equals) (fun openers around => ?_) around).bind
      fun default behind kept => keeps_pure kept
    exact types.item around

theorem TypeKeeps.parameter (types : TypeKeeps nesting type) :
    ItemKeeps (nesting + 1) (parameter type) := by
  intro base openers around
  refine keeps_mark_bind (fun _ => rfl) around fun _ behind around => keeps_name_bind fun text => ?_
  have named := (ground_after_name behind text).trans around
  refine keeps_mark_bind ground_question named fun _ behind around => ?_
  refine (keeps_optionalType (among_symbol .colon) (fun openers around => ?_) around).bind
    fun tree behind kept => keeps_pure kept
  exact types.behindColon around

theorem TypeKeeps.typeParameters (types : TypeKeeps nesting type) :
    BracketKeeps (nesting + 2) (typeParameters type) := by
  intro openers
  refine keeps_acceptSymbol_if ?_ (keeps_pure rfl)
  refine keeps_untilClosed_expect (fun _ => rfl) (among_symbol .comma) ground_afterComma
    types.typeParameter (ground_bracket 2 openers) ?_ fun values => keeps_pure rfl
  omega

theorem TypeKeeps.parameters (types : TypeKeeps nesting type) :
    BracketKeeps (nesting + 2) (parameters type) := by
  intro openers
  refine keeps_expect_bind ?_
  refine keeps_untilClosed_expect (fun _ => rfl) (among_symbol .comma) ground_afterComma
    types.parameter (ground_bracket 1 openers) ?_ fun values => keeps_pure rfl
  omega

/-- A name in front of a type is settled like the names of operators are. -/
theorem TypeKeeps.behindName (types : TypeKeeps nesting type) (openers : Openers) (text : String) :
    Keeps [] (openers.after (.name text)) (openers.settled.levels + nesting) type
      fun _ behind => Over openers.settled behind := by
  have keeps := types (openers.after (.name text))
  rwa [settled_after_name] at keeps

theorem TypeKeeps.result (types : TypeKeeps nesting type) : TypeKeeps nesting (result type) := by
  intro openers
  refine keeps_nextTwo fun tokens => ?_
  split
  · next text =>
    refine keeps_skip [.name "asserts", .name text] ?_
    refine keeps_acceptWord_if ?_ (keeps_pure ?_)
    · exact types.behindName openers text
    · exact (over_settled openers).trans (over_after_name openers text)
  · next text _ =>
    exact keeps_skip [.name text, .name "is"] (types.behindName openers text)
  · exact (types openers).whatever tokens

theorem TypeKeeps.method (types : TypeKeeps nesting type) :
    ItemKeeps (nesting + 1) (method type) := by
  rintro base openers rfl
  have low : openers.ground.levels + (nesting + 1) ≤ openers.levels + (nesting + 2) := by
    have below := levels_ground_le openers
    omega
  refine ((types.typeParameters openers).lower low).bind fun parameters behind same => ?_
  cases same
  refine ((types.parameters openers).lower low).bind fun values behind same => ?_
  cases same
  refine keeps_acceptSymbol_if ?_ (keeps_pure rfl)
  exact (types.result.behindColon rfl).bind fun _ _ kept => keeps_pure kept

theorem TypeKeeps.propertyValue (types : TypeKeeps nesting type) (key : String) :
    ItemKeeps (nesting + 1) (propertyValue type key) := by
  intro base openers around
  refine keeps_mark_bind ground_question around fun _ behind around => ?_
  refine keeps_next fun opens => keeps_if ?_ ?_
  · exact (types.method around).bind fun _ _ kept => keeps_pure kept
  · refine keeps_expect_bind ?_
    exact (types.behindColon around).bind fun _ _ kept => keeps_pure kept

theorem TypeKeeps.property (types : TypeKeeps nesting type) :
    ItemKeeps (nesting + 1) (property type) := by
  intro base openers around
  refine keeps_nextTwo fun tokens => ?_
  split
  · next text _ =>
    have named := (ground_after_name openers text).trans around
    exact keeps_skip [.name text] ((types.propertyValue text named).whatever _)
  · next text _ =>
    exact keeps_skip [.string text] ((types.propertyValue text around).whatever _)
  · next numeral _ =>
    exact keeps_skip [.number numeral] ((types.propertyValue numeral around).whatever _)
  · exact keeps_unexpected _

theorem keeps_mappedModifier_bind
    {next : Unit → TypeReader β}
    (around : openers.ground = base)
    (later : ∀ behind, behind.ground = base → Keeps [] behind floor (next ()) gives) :
    Keeps [] openers floor (mappedModifier >>= next) gives := by
  have modifier : Keeps [] openers floor mappedModifier fun _ behind => behind.ground = base := by
    have questioned := (ground_question openers).trans around
    refine keeps_accept_if ((among_symbol .plus).or (among_symbol .minus))
      (fun token member => ?_) ?_
    · have idle : openers.after token = openers := by
        rcases List.mem_pair.mp member with rfl | rfl <;> rfl
      rw [idle]
      exact keeps_acceptSymbol_if (keeps_pure questioned) (keeps_unexpected _)
    · exact keeps_mark_bind ground_question around fun _ _ kept => keeps_pure kept
  exact modifier.bind fun _ => later

/-- What follows the bracket that opens a member is as deep as the bracket. -/
theorem TypeKeeps.bracketedMember
    (types : TypeKeeps nesting type) (around : openers.ground = base) :
    Keeps [] (.bracket 2 :: openers) (base.levels + (nesting + 1)) (bracketedMember type)
      fun _ behind => behind.ground = base := by
  have low : base.levels + (nesting + 1) ≤ 2 + openers.levels + nesting := by
    have below := levels_ground_le openers
    rw [around] at below
    omega
  refine keeps_name_bind fun text => ?_
  have named : (after (.bracket 2 :: openers) (.name text)).ground = .bracket 2 :: openers :=
    (ground_after_name _ text).trans (ground_bracket 2 openers)
  refine keeps_acceptWord_if ?_ ?_
  · have source := (ground_after_name _ "in").trans named
    refine (types.item.inBracket source low).bind fun source behind same => ?_
    refine (keeps_optionalType (among_word "as") (fun openers same => ?_) same).bind
      fun rename behind same => keeps_close_bind (fun _ => rfl) same ?_
    · exact types.item.inBracket ((ground_after_name openers "as").trans same) low
    refine keeps_mappedModifier_bind around fun behind around => keeps_expect_bind ?_
    exact (types.behindColon around).bind fun _ _ kept => keeps_pure kept
  · have key := (ground_colon _).trans named
    refine keeps_expect_bind ((types.item.inBracket key low).bind fun key behind same => ?_)
    refine keeps_close_bind (fun _ => rfl) same (keeps_expect_bind ?_)
    exact (types.behindColon around).bind fun _ _ kept => keeps_pure kept

theorem keeps_readonlySign :
    Keeps [] openers floor readonlySign fun _ behind => behind = openers := by
  refine keeps_nextTwo fun tokens => ?_
  split
  · exact keeps_skip [.symbol .plus] (keeps_pure rfl)
  · exact keeps_skip [.symbol .minus] (keeps_pure rfl)
  · exact keeps_pure rfl

theorem keeps_readonlyWord :
    Keeps [] openers floor readonlyWord fun _ behind => behind.ground = openers.ground := by
  refine keeps_nextTwo fun tokens => ?_
  split
  · exact keeps_pure rfl
  · exact keeps_pure rfl
  · exact keeps_pure rfl
  · exact keeps_pure rfl
  · exact keeps_skip [.name "readonly"] (keeps_pure (ground_after_name openers "readonly"))
  · exact keeps_pure rfl

theorem TypeKeeps.member (types : TypeKeeps nesting type) :
    ItemKeeps (nesting + 1) (member type) := by
  intro base openers around
  refine keeps_readonlySign.bind fun _ behind same => ?_
  cases same
  refine keeps_readonlyWord.bind fun _ behind same => ?_
  have around := same.trans around
  exact keeps_acceptSymbol_if (types.bracketedMember around) (types.property around)

/-! ## Nested productions -/

/-- Whether the readers of a level keep what they should at a nesting. -/
structure LevelKeeps (nesting : Nat) (level : Level) : Prop where
  type : TypeKeeps nesting level.type
  operand : OperandKeeps (nesting + 1) level.operand

abbrev InnerKeeps : Nat → Option Level → Prop :=
  Nested LevelKeeps

variable {inner : Option Level}

/-- A production that opens a level with tokens that are known to be next. -/
theorem InnerKeeps.nested
    {read : Level → TypeReader α}
    (inside : InnerKeeps nesting inner)
    (opens : floor < (openers.behind ahead).levels)
    (keeps : ∀ nesting level, LevelKeeps nesting level →
      Keeps [] openers (floor + (nesting + 2)) (read level) holds) :
    Keeps ahead openers (floor + (nesting + 1)) (within inner read) holds := by
  cases inside with
  | none =>
      exact keeps_within (fun _ => opens) nofun
  | some level =>
      refine keeps_within nofun fun _ same => ?_
      cases same
      exact keeps _ _ level

theorem InnerKeeps.tuple (inside : InnerKeeps nesting inner) :
    Keeps [.symbol .openBracket] openers (openers.levels + (nesting + 1)) (tuple inner)
      fun _ behind => behind = openers := by
  refine inside.nested ?_ fun nesting level keeps => keeps_expect_bind ?_
  · exact Nat.lt_add_of_pos_left Nat.two_pos
  refine keeps_untilClosed_expect (fun _ => rfl) (among_symbol .comma) ground_afterComma
    keeps.type.tupleElement (ground_bracket 2 openers) ?_ fun values => keeps_pure rfl
  omega

theorem InnerKeeps.object (inside : InnerKeeps nesting inner) :
    Keeps [.symbol .openBrace] openers (openers.levels + (nesting + 1)) (object inner)
      fun _ behind => behind = openers := by
  refine inside.nested ?_ fun nesting level keeps => keeps_expect_bind ?_
  · exact Nat.lt_add_of_pos_left Nat.one_pos
  refine keeps_untilClosed_expect (fun _ => rfl)
    ((among_symbol .semicolon).or (among_symbol .comma)) ?_
    keeps.type.member (ground_bracket 1 openers) ?_ fun values => keeps_pure rfl
  · intro token member openers
    rcases List.mem_pair.mp member with rfl | rfl <;> exact ground_ground openers
  · omega

/-- An arrow opens two levels, one for the function and one for the type of its result. -/
theorem InnerKeeps.function
    (inside : InnerKeeps nesting inner) (opens : openers.levels < (openers.behind ahead).levels) :
    Keeps ahead openers (openers.levels + (nesting + 1)) (function inner)
      fun _ behind => Over openers behind := by
  refine inside.nested opens fun nesting level keeps => ?_
  refine (keeps.type.typeParameters openers).bind fun types behind same => ?_
  cases same
  refine (keeps.type.parameters openers).bind fun values behind same => ?_
  cases same
  refine keeps_expect_bind ?_
  have result := keeps.type.result (.arrow :: openers)
  refine (result.lower ?_).bind fun tree behind above => keeps_pure ?_
  · change openers.levels + (nesting + 2) ≤ levels (.arrow :: openers) + nesting
    rw [levels_cons, Opener.levels]
    omega
  · exact (Over.cons rfl openers).trans above

theorem TypeKeeps.typeArguments
    (types : TypeKeeps nesting type) :
    Keeps [] (.bracket 2 :: openers) (openers.levels + (nesting + 2)) (typeArguments type)
      fun _ behind => behind = openers := by
  have low : openers.levels + (nesting + 2) ≤ 2 + openers.levels + nesting := by
    omega
  refine (types.item.inBracket (ground_bracket 2 openers) low).bind fun first behind around => ?_
  refine keeps_acceptSymbol_if ?_ (keeps_close_bind (fun _ => rfl) around (keeps_pure rfl))
  exact keeps_untilClosed_expect (fun _ => rfl) (among_symbol .comma) ground_afterComma
    types.item ((ground_ground behind).trans around) low fun values => keeps_pure rfl

theorem InnerKeeps.reference (inside : InnerKeeps nesting inner) :
    OperandKeeps (nesting + 1) (reference inner) := by
  intro openers
  have named : ∀ behind, Over openers behind → Keeps [] behind (openers.levels + (nesting + 1))
      (name .qualifiedName) fun _ behind => Over openers behind := by
    intro behind above
    refine (keeps_name .qualifiedName).weaken fun text after same => ?_
    cases same
    exact above.trans (over_after_name behind text)
  have dotted : ∀ behind, Over openers behind →
      Keeps [] (behind.afterSymbol .dot) (openers.levels + (nesting + 1))
        (name .qualifiedName) fun _ behind => Over openers behind :=
    named
  refine (keeps_separated (named openers (.refl openers)) dotted).bind fun path behind above => ?_
  refine keeps_acceptSymbol_if ?_ (keeps_pure above)
  have low := above.levels_le
  have arguments : Keeps [] (.bracket 2 :: behind) (openers.levels + (nesting + 1))
      (within inner fun level => typeArguments level.type) fun _ after => after = behind := by
    refine inside.nested ?_ fun nesting level keeps => ?_
    · change openers.levels < levels (.bracket 2 :: behind)
      rw [levels_cons, Opener.levels]
      omega
    · exact keeps.type.typeArguments.lower (by omega)
  refine arguments.bind fun trees after same => keeps_pure ?_
  rw [same]
  exact above

theorem TypeKeeps.parenthesized (types : TypeKeeps nesting type) (others : List Token) :
    Keeps (.symbol .openParen :: others) openers (openers.levels + (nesting + 1))
      (parenthesized type) fun _ behind => behind = openers := by
  refine keeps_skip [.symbol .openParen] (Keeps.whatever ?_ others)
  refine (types.item.inBracket (ground_bracket 1 openers) ?_).bind fun tree behind around => ?_
  · omega
  · exact keeps_close_bind (fun _ => rfl) around (keeps_pure rfl)

theorem keeps_negativeNumber (others : List Token) :
    Keeps (.symbol .minus :: others) openers floor negativeNumber
      fun _ behind => behind = openers := by
  refine keeps_skip [.symbol .minus] (keeps_nextTwo fun tokens => ?_)
  split
  · exact keeps_skip [.number _] (keeps_pure rfl)
  · exact keeps_unexpected _

theorem InnerKeeps.operationOrReference
    (inside : InnerKeeps nesting inner) (word : String) (followers : List Token) :
    Keeps (.name word :: followers) openers (openers.levels + (nesting + 1))
      (operationOrReference inner word followers.head?) fun _ behind => Over openers behind := by
  unfold TypeReader.operationOrReference
  split
  · next operator spelled _ =>
    have found := List.find?_some spelled
    have written : operator.word = word := eq_of_beq found
    refine keeps_skip [.name word] (Keeps.whatever ?_ followers)
    have opened : openers.behind [.name word] = .operator :: openers := by
      rw [← written]
      exact after_operator operator openers
    rw [opened]
    have operand : Keeps [] (.operator :: openers) (openers.levels + (nesting + 1))
        (within inner Level.operand) fun _ behind => Over openers behind := by
      refine inside.nested ?_ fun nesting level keeps => ?_
      · exact Nat.lt_add_of_pos_left Nat.one_pos
      · refine (keeps.operand (.operator :: openers)).mono ?_ fun _ _ above =>
          (Over.cons rfl openers).trans above
        rw [levels_cons, Opener.levels]
        omega
    exact operand.bind fun _ _ kept => keeps_pure kept
  · exact (inside.reference openers).whatever _

/-! ## Types -/

theorem InnerKeeps.primary (inside : InnerKeeps nesting inner) (types : TypeKeeps nesting type) :
    OperandKeeps (nesting + 1) (primary type inner) := by
  intro openers
  have untouched : ∀ behind, behind = openers → Over openers behind :=
    fun behind same => same ▸ .refl openers
  have generics : Keeps [.symbol .less] openers (openers.levels + (nesting + 1))
      (TypeReader.function inner) fun _ behind => Over openers behind :=
    inside.function (Nat.lt_add_of_pos_left Nat.two_pos)
  have parameters : Keeps [.symbol .openParen] openers (openers.levels + (nesting + 1))
      (TypeReader.function inner) fun _ behind => Over openers behind :=
    inside.function (Nat.lt_add_of_pos_left Nat.one_pos)
  refine keeps_nextTwo fun tokens => ?_
  split
  · exact keeps_skip [.name "infer", .name _] (keeps_pure (over_after_name openers _))
  · exact keeps_skip [.name "new"] parameters
  · exact keeps_skip [.name "new"] generics
  · exact inside.operationOrReference _ _
  · exact keeps_skip [.string _] (keeps_pure (.refl openers))
  · exact keeps_skip [.number _] (keeps_pure (.refl openers))
  · exact generics.ofPrefix (List.prefix_append [_] _)
  · refine keeps_remaining fun input => ?_
    split
    · exact parameters.ofPrefix (List.prefix_append [_] _)
    · exact (types.parenthesized _).weaken fun _ => untouched
  · exact (keeps_negativeNumber _).weaken fun _ => untouched
  · have tuple := inside.tuple.weaken fun _ => untouched
    exact tuple.ofPrefix (List.prefix_append [_] _)
  · have object := inside.object.weaken fun _ => untouched
    exact object.ofPrefix (List.prefix_append [_] _)
  · exact keeps_unexpected _

theorem TypeKeeps.accessBody (types : TypeKeeps nesting type) :
    Keeps [] (.bracket 2 :: openers) (openers.levels + (nesting + 1)) (accessBody type)
      fun _ behind => behind = openers := by
  refine keeps_acceptSymbol_if (keeps_pure rfl) ?_
  refine (types.item.inBracket (ground_bracket 2 openers) ?_).bind fun tree behind around => ?_
  · omega
  · exact keeps_close_bind (fun _ => rfl) around (keeps_pure rfl)

theorem InnerKeeps.suffixed (inside : InnerKeeps nesting inner) (types : TypeKeeps nesting type) :
    OperandKeeps (nesting + 1) (suffixed type inner) := by
  intro openers
  have accesses : ∀ behind, Over openers behind →
      Keeps [] (behind.afterSymbol .openBracket) (openers.levels + (nesting + 1))
        (TypeReader.accessBody type) fun _ behind => Over openers behind := by
    intro behind above
    refine types.accessBody.mono (Nat.add_le_add_right above.levels_le _) fun _ after same => ?_
    rw [same]
    exact above
  refine (inside.primary types openers).bind fun tree behind above => ?_
  exact (keeps_separatedItems accesses above).bind fun _ _ kept => keeps_pure kept

/-- What stands between the parts of a type settles the part in front of it. -/
theorem TypeKeeps.joinedBy
    {kind : Symbol} {part : TypeReader TypeExpr}
    (settles : ∀ openers : Openers, openers.afterSymbol kind = openers.settled)
    (parts : TypeKeeps nesting part) (join : List TypeExpr → TypeExpr) :
    TypeKeeps nesting (joinedBy kind join part) := by
  intro openers
  have first : ∀ behind : Openers, behind.settled = openers.settled →
      Keeps [] behind (openers.settled.levels + nesting) part
        fun _ behind => Over openers.settled behind := by
    intro behind same
    have keeps := parts behind
    rwa [same] at keeps
  have others : ∀ behind, Over openers.settled behind →
      Keeps [] (behind.afterSymbol kind) (openers.settled.levels + nesting) part
        fun _ behind => Over openers.settled behind := by
    intro behind above
    have kept := above.settled (settled_settled openers)
    have keeps := parts behind.settled
    rw [settled_settled] at keeps
    rw [settles]
    exact keeps.mono (Nat.add_le_add_right kept.levels_le _) fun _ _ more => kept.trans more
  have lead : Keeps [] openers (openers.settled.levels + nesting) (acceptSymbol kind)
      fun _ behind => behind.settled = openers.settled := by
    refine keeps_acceptSymbol rfl ?_
    rw [settles, settled_settled]
  refine lead.bind fun _ behind same => ?_
  exact (keeps_separated (first behind same) others).bind fun _ _ kept => keeps_pure kept

theorem OperandKeeps.union {operand : TypeReader TypeExpr}
    (operands : OperandKeeps nesting operand) : TypeKeeps nesting (union operand) :=
  (operands.settles.joinedBy (fun _ => rfl) .intersection).joinedBy (fun _ => rfl) .union

/-- A type behind the question mark or the colon of a conditional. -/
theorem TypeKeeps.behindBranch
    (types : TypeKeeps nesting type) {opener : Opener}
    (still : settled (opener :: openers) = opener :: openers) (counts : opener.levels = 1)
    (low : base.levels ≤ openers.levels) :
    Keeps [] (opener :: openers) (base.levels + (nesting + 1)) type
      fun _ behind => Over (opener :: openers) behind := by
  have keeps := types (opener :: openers)
  rw [still] at keeps
  refine keeps.lower ?_
  rw [levels_cons, counts]
  omega

theorem LevelKeeps.complete {level : Level} (keeps : LevelKeeps nesting level) :
    TypeKeeps (nesting + 1) (complete level) := by
  intro openers
  have still := settled_settled openers
  have unions : ∀ behind, Over openers.settled behind →
      Keeps [] behind (openers.settled.levels + (nesting + 1)) (union level.operand)
        fun _ behind => Over openers.settled behind := by
    intro behind above
    have kept := above.settled still
    exact (keeps.operand.union behind).mono (Nat.add_le_add_right kept.levels_le _)
      fun _ _ more => kept.trans more
  refine (keeps.operand.union openers).bind fun check behind above => ?_
  refine keeps_acceptWord_if ?_ (keeps_pure above)
  -- The colon finds its question mark, since the branch between them leaves light openers only.
  refine (unions behind above).bind fun bound behind above => keeps_expect_bind ?_
  have kept := above.settled still
  refine (keeps.type.behindBranch rfl rfl kept.levels_le).bind fun whenTrue after question => ?_
  refine keeps_expect_bind ?_
  have colon : after.afterSymbol .colon = .colon :: behind.settled := by
    rw [afterSymbol, question.questioned]
    rfl
  rw [colon]
  refine (keeps.type.behindBranch rfl rfl kept.levels_le).bind fun whenFalse after more => ?_
  exact keeps_pure (kept.trans ((Over.cons rfl _).trans more))

theorem levelKeeps_level (nesting : Nat) : LevelKeeps nesting (level nesting) := by
  induction nesting with
  | zero =>
      have type : TypeKeeps 0 (fail fun _ => .tooDeep) := by
        intro openers input _
        exact ⟨nofun, fun _ => ⟨[], input, rfl, (over_settled openers).levels_le⟩⟩
      have inside : InnerKeeps 0 none := .none
      exact ⟨type, inside.suffixed type⟩
  | succ nesting keeps =>
      have inside : InnerKeeps (nesting + 1) (some (level nesting)) := .some keeps
      exact ⟨keeps.complete, inside.suffixed keeps.complete⟩

/-- Where type text nests too deeply, more levels are open at once than are allowed. -/
theorem exists_levels_of_tooDeep
    {lexemes : List Lexeme} (deep : TypeExpr.ofLexemes? lexemes = .error .tooDeep) :
    ∃ taken rest, lexemes = taken ++ rest ∧
      greatestNesting ≤ (behind [] (taken.map Lexeme.token)).levels := by
  have exhausted : (level greatestNesting).type.run lexemes = .error .tooDeep := by
    unfold TypeExpr.ofLexemes? at deep
    split at deep <;> cases deep
    assumption
  have keeps := (levelKeeps_level greatestNesting).type [] lexemes List.nil_prefix
  obtain ⟨taken, rest, shape, opened⟩ := keeps.exhausts exhausted
  have nothing : levels (settled []) = 0 := rfl
  rw [nothing, Nat.zero_add] at opened
  exact ⟨taken, rest, shape, opened⟩

/-! ## Text that is rejected -/

theorem run_primary_of_operator
    {head second : Lexeme} {rest : List Lexeme} {operator : TypeOperator} {word : String}
    (token : head.token = .name operator.word) (follower : second.token = .name word)
    (reader : TypeReader TypeExpr) (inner : Option Level) :
    (primary reader inner).run (head :: second :: rest) =
      (within inner Level.operand >>= fun operand => pure (.operation operator operand)).run
        (second :: rest) := by
  have tokens : firstTwo (head :: second :: rest) = [.name operator.word, .name word] := by
    rw [firstTwo, List.take_succ_cons, List.take_succ_cons, List.take_zero, List.map_cons,
      List.map_singleton, token, follower]
  rw [primary, run_nextTwo_bind, tokens]
  cases operator <;> rfl

/-- Operators in front of a name are too deep if there are more of them than levels left. -/
theorem run_operand_of_operators
    (operator : TypeOperator) {nesting : Nat} {lexemes : List Lexeme} {word : String}
    {others : List Token}
    (tokens : lexemes.map Lexeme.token =
      List.replicate (nesting + 1) (.name operator.word) ++ .name word :: others) :
    (level nesting).operand.run lexemes = .error .tooDeep := by
  rw [operand_level]
  refine run_bind_error ?_ _
  induction nesting generalizing lexemes with
  | zero =>
      obtain ⟨head, _, rfl, first, tokens⟩ := List.map_eq_cons_iff.mp tokens
      obtain ⟨second, rest, rfl, follower, -⟩ := List.map_eq_cons_iff.mp tokens
      rw [run_primary_of_operator first follower]
      rfl
  | succ nesting inner =>
      rw [List.replicate_succ, List.cons_append] at tokens
      obtain ⟨head, rest, rfl, first, tokens⟩ := List.map_eq_cons_iff.mp tokens
      have deeper := inner tokens
      rw [List.replicate_succ, List.cons_append] at tokens
      obtain ⟨second, rest, rfl, follower, -⟩ := List.map_eq_cons_iff.mp tokens
      rw [run_primary_of_operator first follower]
      refine run_bind_error ?_ _
      change (level nesting).operand.run _ = _
      rw [operand_level]
      exact run_bind_error deeper _

end TypeReader

namespace TypeExpr

/-- A text is rejected for its nesting only if its tokens open that many levels at once. -/
theorem exists_levels_of_parse
    {text : String} (deep : parse text = .error .tooDeep) :
    ∃ lexemes taken rest, Lexeme.ofTypeText text = .ok lexemes ∧ lexemes = taken ++ rest ∧
      greatestNesting ≤ (Openers.behind [] (taken.map Lexeme.token)).levels := by
  rw [parse] at deep
  cases cut : Lexeme.ofTypeText text with
  | error error =>
      rw [cut] at deep
      cases deep
      rw [Lexeme.ofTypeText] at cut
      split at cut <;> cases cut
  | ok lexemes =>
      rw [cut] at deep
      obtain ⟨taken, rest, shape, opened⟩ := TypeReader.exists_levels_of_tooDeep deep
      exact ⟨lexemes, taken, rest, rfl, shape, opened⟩

/-- A name behind operators. -/
def operatorText (count : Nat) : String :=
  String.join (List.replicate count "keyof ") ++ "X"

theorem spells_operatorText (count : Nat) :
    Spells (operatorText count)
      (List.replicate count (.name TypeOperator.keyOf.word) ++ [.name "X"]) := by
  have operator : Closed ("keyof" ++ " ") ([.name TypeOperator.keyOf.word] ++ []) :=
    (spells_name rfl).append_closed (closed_blanks rfl) rfl
  have operators : Closed (String.join (List.replicate count "keyof "))
      (List.replicate count (.name TypeOperator.keyOf.word)) := by
    induction count with
    | zero =>
        exact fun rest => .done rest
    | succ count inner =>
        rw [List.replicate_succ, String.join_cons, List.replicate_succ]
        exact operator.append inner
  exact operators.append_spells (spells_name rfl)

/-- Operators nest although they open no bracket. -/
theorem parse_operatorText : parse (operatorText greatestNesting) = .error .tooDeep := by
  obtain ⟨lexemes, cut, tokens⟩ := (spells_operatorText greatestNesting).exists_lexemes
  have failed := TypeReader.run_operand_of_operators .keyOf tokens
  obtain ⟨head, rest, rfl, first, -⟩ := List.map_eq_cons_iff.mp tokens
  have begins : head.token ≠ .symbol .pipe ∧ head.token ≠ .symbol .ampersand := by
    rw [first]
    exact ⟨nofun, nofun⟩
  have whole : (TypeReader.level greatestNesting).type.run (head :: rest) = .error .tooDeep :=
    TypeReader.run_type_of_operand begins failed nofun
  rw [parse, cut]
  change ofLexemes? _ = _
  rw [ofLexemes?, whole]

theorem exists_levels_of_parse_operators :
    parse (operatorText greatestNesting) = .error .tooDeep ∧
      ∃ lexemes taken rest, Lexeme.ofTypeText (operatorText greatestNesting) = .ok lexemes ∧
        lexemes = taken ++ rest ∧
        greatestNesting ≤ (Openers.behind [] (taken.map Lexeme.token)).levels :=
  ⟨parse_operatorText, exists_levels_of_parse parse_operatorText⟩

end TypeExpr

end TypeGraph
