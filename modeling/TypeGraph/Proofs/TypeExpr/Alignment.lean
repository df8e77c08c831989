import Mathlib.Data.List.Forall2
import TypeGraph.Proofs.Reader
import TypeGraph.Proofs.TypeExpr.Texts
import TypeGraph.TypeExpr.Parser

/-!
# Readers on two inputs

A reader of types is run on two inputs side by side. The lexemes of the first input correspond to
the front of the second, and a symbol that no type goes on with may stand behind that front. Where
the first run succeeds, the second gives the same value and stops at the corresponding place, unless
it has less nesting to spend. Where the first input is the whole of the second, failures
correspond too.
-/

namespace TypeGraph

namespace Token

/-- The token with another text if it is a string literal. -/
def mapText (change : String → String) : Token → Token
  | string text => string (change text)
  | name text => name text
  | number numeral => number numeral
  | symbol kind => symbol kind

def isPlain (token : Token) : Bool :=
  token != .symbol .openParen && token != .symbol .closeParen

end Token

/-- Whether a symbol may stand behind a complete type and does not go on with it. -/
def Symbol.endsType : Symbol → Bool
  | comma | greater | closeParen | closeBracket | closeBrace | colon | semicolon | question
  | equals => true
  | _ => false

/-- Two inputs side by side. -/
structure Alignment where
  /-- Which lexemes of the two inputs correspond. -/
  lexeme : Lexeme → Lexeme → Prop
  /-- What is the same in the texts of corresponding string literals. -/
  text : String → String
  /-- What stands in the second input behind all that corresponds to the first. -/
  back : List Lexeme
  /-- Whether the second run may be out of nesting before the first is. -/
  shallower : Prop
  mapText_token : ∀ {left right}, lexeme left right →
    left.token.mapText text = right.token.mapText text
  back_ends : ∀ head ∈ back.head?, ∃ kind, head.token = .symbol kind ∧ kind.endsType

namespace TypeReader

open Reader

/-! ## Parentheses -/

/-- Whether the parentheses are paired in what an input has in front of its rest. -/
def Paired (input rest : List Lexeme) : Prop :=
  ∀ opened after,
    closesBeforeArrow (opened + 1) (input ++ after) =
      closesBeforeArrow (opened + 1) (rest ++ after)

theorem Paired.refl (input : List Lexeme) : Paired input input :=
  fun _ _ => rfl

theorem Paired.trans
    {input middle rest : List Lexeme}
    (first : Paired input middle)
    (second : Paired middle rest) :
    Paired input rest :=
  fun opened after => (first opened after).trans (second opened after)

theorem closesBeforeArrow_plain
    {head : Lexeme} (plain : head.token.isPlain) (opened : Nat) (rest : List Lexeme) :
    closesBeforeArrow opened (head :: rest) = closesBeforeArrow opened rest := by
  unfold closesBeforeArrow
  split
  · next parenthesis => rw [parenthesis] at plain; cases plain
  · next parenthesis => rw [parenthesis] at plain; cases plain
  · rw [closesBeforeArrow.eq_def]

theorem paired_plain {head : Lexeme} (plain : head.token.isPlain) (tail : List Lexeme) :
    Paired (head :: tail) tail :=
  fun opened after => closesBeforeArrow_plain plain (opened + 1) (tail ++ after)

/-! ## Runs that agree -/

inductive Fails (pair : Alignment) : TypeTextError → TypeTextError → Prop where
  | tooDeep : Fails pair .tooDeep .tooDeep
  | atEnd (expectation : Expectation) :
      Fails pair (.unexpectedEnd expectation) (.unexpectedEnd expectation)
  | at {left right : Lexeme} (expectation : Expectation) :
      pair.lexeme left right →
      Fails pair (.unexpectedToken left.token left.start expectation)
        (.unexpectedToken right.token right.start expectation)

variable {α β γ δ : Type}

/-- Whether the outcomes of two runs agree, values by what `view` shows of them. A first run that
comes to the end of its input may be left behind where `atEnd` does not hold. -/
def Agree (pair : Alignment) (atEnd : Prop) (view : α → γ) (input : List Lexeme) :
    Except TypeTextError (α × List Lexeme) → Except TypeTextError (α × List Lexeme) → Prop
  | .error error, outcome =>
    pair.back ≠ [] ∨ ∃ other, outcome = .error other ∧ (pair.shallower ∨ Fails pair error other)
  | .ok (value, rest), outcome =>
    Paired input rest ∧
      ∃ after, List.Forall₂ pair.lexeme rest after ∧
        ((∃ other, view other = view value ∧ outcome = .ok (other, after ++ pair.back)) ∨
          (pair.shallower ∧ outcome = .error .tooDeep) ∨
          (¬ atEnd ∧ pair.back ≠ [] ∧ rest = []))

/-- Whether the runs of two readers on the inputs of an alignment agree. -/
def Reads (pair : Alignment) (atEnd : Prop) (view : α → γ) (left right : TypeReader α) : Prop :=
  ∀ ⦃input front⦄, List.Forall₂ pair.lexeme input front →
    Agree pair atEnd view input (left.run input) (right.run (front ++ pair.back))

def FailsAtEnd (reader : TypeReader α) : Prop :=
  ∃ error, reader.run [] = .error error

theorem failsAtEnd_bind
    (first : TypeReader α) {next : α → TypeReader β}
    (fails : ∀ value, FailsAtEnd (next value)) :
    FailsAtEnd (first >>= next) := by
  rw [FailsAtEnd, run_bind]
  cases ran : first.run [] with
  | error error =>
      exact ⟨error, rfl⟩
  | ok success =>
      obtain ⟨value, rest⟩ := success
      have nothing : rest = [] :=
        List.eq_nil_of_length_eq_zero (Nat.le_zero.mp (first.shrinks ran))
      rw [nothing]
      exact fails value

theorem failsAtEnd_expect (kind : Symbol) (place : Place) (next : Unit → TypeReader α) :
    FailsAtEnd (expect kind place >>= next) :=
  ⟨_, rfl⟩

section Agreement

variable {pair : Alignment} {atEnd : Prop} {view : α → γ} {image : β → δ}

theorem Agree.of_paired
    {input rest : List Lexeme} {outcome other : Except TypeTextError (α × List Lexeme)}
    (paired : Paired input rest)
    (agree : Agree pair atEnd view rest outcome other) :
    Agree pair atEnd view input outcome other := by
  cases outcome with
  | error error =>
      exact agree
  | ok success =>
      exact ⟨paired.trans agree.1, agree.2⟩

theorem Agree.weaken
    {input : List Lexeme} {outcome other : Except TypeTextError (α × List Lexeme)}
    (agree : Agree pair True view input outcome other) :
    Agree pair atEnd view input outcome other := by
  cases outcome with
  | error error =>
      exact agree
  | ok success =>
      obtain ⟨paired, after, aligned, same | deep | ⟨notTrue, _⟩⟩ := agree
      · exact ⟨paired, after, aligned, Or.inl same⟩
      · exact ⟨paired, after, aligned, Or.inr (Or.inl deep)⟩
      · exact absurd trivial notTrue

theorem Reads.weaken {left right : TypeReader α} (reads : Reads pair True view left right) :
    Reads pair atEnd view left right :=
  fun _ _ aligned => (reads aligned).weaken

theorem Agree.tooDeep
    (shallower : pair.shallower)
    {input : List Lexeme} {outcome other : Except TypeTextError (α × List Lexeme)}
    (agree : Agree pair atEnd view input outcome other) :
    Agree pair atEnd view input outcome (.error .tooDeep) := by
  cases outcome with
  | error error =>
      exact Or.inr ⟨_, rfl, Or.inl shallower⟩
  | ok success =>
      obtain ⟨paired, after, aligned, _⟩ := agree
      exact ⟨paired, after, aligned, Or.inr (Or.inl ⟨shallower, rfl⟩)⟩

theorem Reads.tooDeep
    (shallower : pair.shallower)
    {left right : TypeReader α}
    (reads : Reads pair atEnd view left right) :
    Reads pair atEnd view left (fail fun _ => .tooDeep) :=
  fun _ _ aligned => (reads aligned).tooDeep shallower

theorem reads_pure {left right : α} (same : view right = view left) :
    Reads pair atEnd view (pure left) (pure right) :=
  fun input front aligned =>
    ⟨Paired.refl input, front, aligned, Or.inl ⟨right, same, rfl⟩⟩

/-- Two steps agree if the first ones do and the second ones do on what is left. A first input that
is at its end may be left behind there if the second step fails without further input. -/
theorem Agree.bind_of_end
    {first : Prop} {left right : TypeReader α} {leftNext rightNext : α → TypeReader β}
    {input front : List Lexeme}
    (agree : Agree pair first view input (left.run input) (right.run (front ++ pair.back)))
    (next : ∀ value other rest after, left.run input = .ok (value, rest) →
      view other = view value → List.Forall₂ pair.lexeme rest after →
      Agree pair atEnd image rest ((leftNext value).run rest)
        ((rightNext other).run (after ++ pair.back)))
    (ends : ¬ first → ∀ value, left.run input = .ok (value, []) →
      ¬ atEnd ∨ FailsAtEnd (leftNext value)) :
    Agree pair atEnd image input ((left >>= leftNext).run input)
      ((right >>= rightNext).run (front ++ pair.back)) := by
  rw [run_bind, run_bind]
  cases ran : left.run input with
  | error error =>
      rw [ran] at agree
      rcases agree with occupied | ⟨other, fails, kin⟩
      · exact Or.inl occupied
      · rw [fails]
        exact Or.inr ⟨other, rfl, kin⟩
  | ok success =>
      obtain ⟨value, rest⟩ := success
      rw [ran] at agree
      obtain ⟨paired, after, aligned, same | deep | left⟩ := agree
      · obtain ⟨other, sameView, outcome⟩ := same
        rw [outcome]
        exact (next value other rest after ran sameView aligned).of_paired paired
      · rw [deep.2]
        exact ((next value value rest after ran rfl aligned).tooDeep deep.1).of_paired paired
      · obtain ⟨notFirst, occupied, rfl⟩ := left
        have rests := next value value [] after ran rfl aligned
        dsimp only
        cases final : (leftNext value).run [] with
        | error error =>
            exact Or.inl occupied
        | ok result =>
            obtain ⟨result, rest⟩ := result
            have nothing : rest = [] :=
              List.eq_nil_of_length_eq_zero (Nat.le_zero.mp ((leftNext value).shrinks final))
            subst nothing
            rw [final] at rests
            refine ⟨paired.trans rests.1, [], List.Forall₂.nil, Or.inr (Or.inr ⟨?_, occupied, rfl⟩)⟩
            rcases ends notFirst value ran with notAtEnd | ⟨error, fails⟩
            · exact notAtEnd
            · rw [fails] at final
              cases final

theorem Agree.bind
    {left right : TypeReader α} {leftNext rightNext : α → TypeReader β}
    {input front : List Lexeme}
    (agree : Agree pair atEnd view input (left.run input) (right.run (front ++ pair.back)))
    (next : ∀ value other rest after, left.run input = .ok (value, rest) →
      view other = view value → List.Forall₂ pair.lexeme rest after →
      Agree pair atEnd image rest ((leftNext value).run rest)
        ((rightNext other).run (after ++ pair.back))) :
    Agree pair atEnd image input ((left >>= leftNext).run input)
      ((right >>= rightNext).run (front ++ pair.back)) :=
  agree.bind_of_end next fun notAtEnd _ _ => Or.inl notAtEnd

theorem Reads.bind
    {left right : TypeReader α} {leftNext rightNext : α → TypeReader β}
    (reads : Reads pair atEnd view left right)
    (next : ∀ value other, view other = view value →
      Reads pair atEnd image (leftNext value) (rightNext other)) :
    Reads pair atEnd image (left >>= leftNext) (right >>= rightNext) :=
  fun _ _ aligned =>
    (reads aligned).bind fun value other _ _ _ same rests => next value other same rests

theorem Reads.bind_closed
    {left right : TypeReader α} {leftNext rightNext : α → TypeReader β}
    (reads : Reads pair False view left right)
    (next : ∀ value other, view other = view value →
      Reads pair atEnd image (leftNext value) (rightNext other))
    (closes : ∀ value, FailsAtEnd (leftNext value)) :
    Reads pair atEnd image (left >>= leftNext) (right >>= rightNext) :=
  fun _ _ aligned =>
    (reads aligned).bind_of_end (fun value other _ _ _ same rests => next value other same rests)
      fun _ value _ => Or.inr (closes value)

/-! ## Classes of lexemes -/

theorem isSymbol_eq_of_lexeme
    {left right : Lexeme} (kin : pair.lexeme left right) (kind : Symbol) :
    isSymbol kind right = isSymbol kind left := by
  have same := pair.mapText_token kin
  rcases left with ⟨_ | _ | _ | _, _, _⟩ <;> rcases right with ⟨_ | _ | _ | _, _, _⟩ <;>
    simp_all [Token.mapText, isSymbol]

theorem isWord_eq_of_lexeme
    {left right : Lexeme} (kin : pair.lexeme left right) (word : String) :
    isWord word right = isWord word left := by
  have same := pair.mapText_token kin
  rcases left with ⟨_ | _ | _ | _, _, _⟩ <;> rcases right with ⟨_ | _ | _ | _, _, _⟩ <;>
    simp_all [Token.mapText, isWord]

/-- A class of tokens that both runs tell alike. Where `atEnd` holds, what follows in the second
input is not in it. -/
structure Told (pair : Alignment) (atEnd : Prop) (inClass : Lexeme → Bool) : Prop where
  same : ∀ {left right}, pair.lexeme left right → inClass right = inClass left
  plain : ∀ {lexeme}, inClass lexeme → lexeme.token.isPlain
  off : atEnd → ∀ head ∈ pair.back.head?, inClass head = false

theorem told_symbol
    {kind : Symbol}
    (plain : (Token.symbol kind).isPlain)
    (off : atEnd → kind.endsType = false) :
    Told pair atEnd (isSymbol kind) where
  same kin := isSymbol_eq_of_lexeme kin kind
  plain member := by
    rw [eq_of_beq member]
    exact plain
  off holds head member := by
    obtain ⟨other, token, ends⟩ := pair.back_ends head member
    rw [isSymbol, token, beq_eq_false_iff_ne]
    rintro ⟨⟩
    rw [off holds] at ends
    cases ends

theorem told_word (word : String) : Told pair atEnd (isWord word) where
  same kin := isWord_eq_of_lexeme kin word
  plain member := by
    rw [eq_of_beq member]
    rfl
  off _ head member := by
    obtain ⟨kind, token, _⟩ := pair.back_ends head member
    rw [isWord, token]
    rfl

theorem Told.or
    {first second : Lexeme → Bool}
    (left : Told pair atEnd first)
    (right : Told pair atEnd second) :
    Told pair atEnd fun lexeme => first lexeme || second lexeme where
  same kin := by rw [left.same kin, right.same kin]
  plain member := (Bool.or_eq_true_iff.mp member).elim left.plain right.plain
  off holds head member := by rw [left.off holds head member, right.off holds head member]; rfl

theorem reads_accept {inClass : Lexeme → Bool} (told : Told pair atEnd inClass) :
    Reads pair atEnd id (accept inClass) (accept inClass) := by
  intro input front aligned
  cases aligned with
  | nil =>
      rw [run_accept_nil, List.nil_append]
      refine ⟨Paired.refl [], [], List.Forall₂.nil, ?_⟩
      cases back : pair.back with
      | nil =>
          exact Or.inl ⟨false, rfl, rfl⟩
      | cons head tail =>
          by_cases holds : atEnd
          · have outside := told.off holds head (by rw [back]; rfl)
            rw [run_accept_cons, outside]
            exact Or.inl ⟨false, rfl, rfl⟩
          · exact Or.inr (Or.inr ⟨holds, List.cons_ne_nil head tail, rfl⟩)
  | @cons head other tail after kin rest =>
      rw [List.cons_append, run_accept_cons, run_accept_cons, told.same kin]
      cases member : inClass head with
      | false =>
          exact ⟨Paired.refl _, other :: after, rest.cons kin, Or.inl ⟨false, rfl, rfl⟩⟩
      | true =>
          exact ⟨paired_plain (told.plain member) tail, after, rest, Or.inl ⟨true, rfl, rfl⟩⟩

theorem reads_next
    {inClass : Lexeme → Bool}
    (same : ∀ {left right}, pair.lexeme left right → inClass right = inClass left) :
    Reads pair False id (next inClass) (next inClass) := by
  intro input front aligned
  cases aligned with
  | nil =>
      rw [run_next_nil]
      refine ⟨Paired.refl [], [], List.Forall₂.nil, ?_⟩
      cases back : pair.back with
      | nil =>
          exact Or.inl ⟨false, rfl, rfl⟩
      | cons head tail =>
          exact Or.inr (Or.inr ⟨id, List.cons_ne_nil head tail, rfl⟩)
  | @cons head other tail after kin rest =>
      rw [List.cons_append, run_next_cons, run_next_cons, same kin]
      exact ⟨Paired.refl _, other :: after, rest.cons kin, Or.inl ⟨_, rfl, rfl⟩⟩

/-- At the end of the first input nothing is asked of what follows in the second if the first run
fails. -/
theorem agree_nil_of_fails
    {left right : TypeReader α} {error other : TypeTextError}
    (fails : left.run [] = .error error)
    (otherFails : right.run [] = .error other)
    (kin : Fails pair error other) :
    Agree pair atEnd view [] (left.run []) (right.run ([] ++ pair.back)) := by
  rw [fails, List.nil_append]
  by_cases empty : pair.back = []
  · rw [empty, otherFails]
    exact Or.inr ⟨other, rfl, Or.inr kin⟩
  · exact Or.inl empty

theorem run_unexpected_cons (expectation : Expectation) (head : Lexeme) (tail : List Lexeme) :
    (unexpected expectation : TypeReader α).run (head :: tail) =
      .error (.unexpectedToken head.token head.start expectation) :=
  rfl

theorem reads_unexpected (expectation : Expectation) :
    Reads pair atEnd view (unexpected expectation) (unexpected expectation) := by
  intro input front aligned
  cases aligned with
  | nil =>
      exact agree_nil_of_fails rfl rfl (.atEnd expectation)
  | cons kin rest =>
      rw [List.cons_append, run_unexpected_cons, run_unexpected_cons]
      exact Or.inr ⟨_, rfl, Or.inr (.at expectation kin)⟩

theorem run_expect_cons (kind : Symbol) (place : Place) (head : Lexeme) (tail : List Lexeme) :
    (expect kind place).run (head :: tail) =
      if isSymbol kind head then .ok ((), tail)
      else .error (.unexpectedToken head.token head.start ⟨some kind, place⟩) := by
  rw [expect, acceptSymbol, run_bind, run_accept_cons]
  cases isSymbol kind head <;> rfl

theorem reads_expect
    {kind : Symbol}
    (plain : (Token.symbol kind).isPlain)
    (place : Place) :
    Reads pair atEnd id (expect kind place) (expect kind place) := by
  intro input front aligned
  cases aligned with
  | nil =>
      exact agree_nil_of_fails rfl rfl (.atEnd ⟨some kind, place⟩)
  | @cons head other tail after kin rest =>
      have told : Told pair False (isSymbol kind) := told_symbol plain False.elim
      rw [List.cons_append, run_expect_cons, run_expect_cons, told.same kin]
      cases member : isSymbol kind head with
      | false =>
          exact Or.inr ⟨_, rfl, Or.inr (.at _ kin)⟩
      | true =>
          exact ⟨paired_plain (told.plain member) tail, after, rest, Or.inl ⟨(), rfl, rfl⟩⟩

/-! ## Names and lists -/

theorem token_eq_name_iff
    {left right : Lexeme} (kin : pair.lexeme left right) {text : String} :
    right.token = .name text ↔ left.token = .name text := by
  have same := pair.mapText_token kin
  rcases left with ⟨_ | _ | _ | _, _, _⟩ <;> rcases right with ⟨_ | _ | _ | _, _, _⟩ <;>
    simp_all [Token.mapText]

theorem run_name_of_eq
    {head : Lexeme} {text : String} (token : head.token = .name text)
    (place : Place) (tail : List Lexeme) :
    (name place).run (head :: tail) = .ok (text, tail) := by
  rcases head with ⟨_, start, stop⟩
  cases token
  cases tail <;> rfl

theorem run_name_of_ne
    {head : Lexeme} (noName : ∀ text, head.token ≠ .name text)
    (place : Place) (tail : List Lexeme) :
    (name place).run (head :: tail) =
      .error (.unexpectedToken head.token head.start ⟨none, place⟩) := by
  rcases head with ⟨_ | _ | _ | _, start, stop⟩
  · exact absurd rfl (noName _)
  all_goals rfl

theorem reads_name (place : Place) : Reads pair atEnd id (name place) (name place) := by
  intro input front aligned
  cases aligned with
  | nil =>
      exact agree_nil_of_fails rfl rfl (.atEnd ⟨none, place⟩)
  | @cons head other tail after kin rest =>
      rw [List.cons_append]
      by_cases named : ∃ text, head.token = .name text
      · obtain ⟨text, token⟩ := named
        rw [run_name_of_eq token, run_name_of_eq ((token_eq_name_iff kin).mpr token)]
        exact ⟨paired_plain (token ▸ rfl) tail, after, rest, Or.inl ⟨text, rfl, rfl⟩⟩
      · have noName := not_exists.mp named
        rw [run_name_of_ne noName,
          run_name_of_ne fun text token => noName text ((token_eq_name_iff kin).mp token)]
        exact Or.inr ⟨_, rfl, Or.inr (.at _ kin)⟩

theorem reads_separatedItems
    {isSeparator : Lexeme → Bool} {left right : TypeReader α}
    (told : Told pair atEnd isSeparator)
    (item : Reads pair atEnd view left right) :
    Reads pair atEnd (List.map view) (separatedItems isSeparator left)
      (separatedItems isSeparator right) := by
  intro input
  induction size : input.length using Nat.strongRecOn generalizing input with
  | ind bound inner =>
      intro front aligned
      rw [run_separatedItems, run_separatedItems]
      refine (reads_accept told aligned).bind fun found other rest after ran same rests => ?_
      cases same
      cases found with
      | false =>
          exact reads_pure rfl rests
      | true =>
          refine (item rests).bind fun value other final finalAfter itemRan same finals => ?_
          have shorter : final.length < bound := by
            have taken := length_lt_of_accept ran
            have left := left.shrinks itemRan
            omega
          refine (inner final.length shorter rfl finals).bind ?_
          intro values others _ _ _ sames lasts
          exact reads_pure (by rw [List.map_cons, List.map_cons, same, sames]) lasts

theorem reads_separated
    {isSeparator : Lexeme → Bool} {left right : TypeReader α}
    (told : Told pair atEnd isSeparator)
    (item : Reads pair atEnd view left right) :
    Reads pair atEnd (List.map view) (separated isSeparator left) (separated isSeparator right) :=
  item.bind fun value other same =>
    (reads_separatedItems told item).bind fun values others sames =>
      reads_pure (by rw [List.map_cons, List.map_cons, same, sames])

theorem reads_untilClosed
    {closes isSeparator : Lexeme → Bool} {left right : TypeReader α}
    (same : ∀ {left right}, pair.lexeme left right → closes right = closes left)
    (told : Told pair False isSeparator)
    (item : Reads pair False view left right) :
    Reads pair False (List.map view) (untilClosed closes isSeparator left)
      (untilClosed closes isSeparator right) := by
  intro input
  induction size : input.length using Nat.strongRecOn generalizing input with
  | ind bound inner =>
      intro front aligned
      rw [run_untilClosed, run_untilClosed]
      refine (reads_next same aligned).bind fun closed other rest after ran same rests => ?_
      cases same
      cases closed with
      | true =>
          exact reads_pure rfl rests
      | false =>
          refine (item rests).bind fun value other middle _ itemRan same middles => ?_
          refine (reads_accept told middles).bind fun found _ final _ acceptRan sameFound finals => ?_
          cases sameFound
          cases found with
          | false =>
              exact reads_pure (by rw [List.map_singleton, List.map_singleton, same]) finals
          | true =>
              have shorter : final.length < bound := by
                have looked := (next closes).shrinks ran
                have read := left.shrinks itemRan
                have taken := length_lt_of_accept acceptRan
                omega
              refine (inner final.length shorter rfl finals).bind ?_
              intro values others _ _ _ sames lasts
              exact reads_pure (by rw [List.map_cons, List.map_cons, same, sames]) lasts

end Agreement

end TypeReader

end TypeGraph
