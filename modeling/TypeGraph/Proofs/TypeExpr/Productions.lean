import TypeGraph.Proofs.TypeExpr.Alignment

/-!
# Productions on two inputs

Every production of the grammar of types agrees on two aligned inputs if the readers of the types
inside of it do. By induction on the nesting so do the readers of complete types, and a text keeps
its tree where it is followed by a symbol that ends a type.
-/

namespace TypeGraph

namespace TypeReader

open Reader

structure Levels (pair : Alignment) (left right : Level) : Prop where
  type : Reads pair True (TypeExpr.mapText pair.text) left.type right.type
  operand : Reads pair True (TypeExpr.mapText pair.text) left.operand right.operand

/-- Whether the readers of the levels inside agree. Where the second may have less nesting, it need
not have any. -/
inductive Inner (pair : Alignment) : Option Level → Option Level → Prop where
  | none : Inner pair none none
  | some {left right : Level} : Levels pair left right → Inner pair (some left) (some right)
  | cut {left right : Level} :
      pair.shallower → Levels pair left right → Inner pair (some left) none

variable {α β γ δ : Type} {pair : Alignment} {atEnd : Prop} {view : α → γ}
  {left right : TypeReader TypeExpr}

theorem reads_within
    {leftRead rightRead : Level → TypeReader α}
    {leftInner rightInner : Option Level}
    (inner : Inner pair leftInner rightInner)
    (reads : ∀ {left right}, Levels pair left right →
      Reads pair atEnd view (leftRead left) (rightRead right)) :
    Reads pair atEnd view (within leftInner leftRead) (within rightInner rightRead) := by
  cases inner with
  | none =>
      exact fun _ _ _ => Or.inr ⟨_, rfl, Or.inr .tooDeep⟩
  | some levels =>
      exact reads levels
  | cut shallower levels =>
      exact (reads levels).tooDeep shallower

theorem reads_if
    {found : Bool} {leftThen leftElse rightThen rightElse : TypeReader α}
    (present : Reads pair atEnd view leftThen rightThen)
    (absent : Reads pair atEnd view leftElse rightElse) :
    Reads pair atEnd view (if found = true then leftThen else leftElse)
      (if found = true then rightThen else rightElse) := by
  cases found with
  | false =>
      exact absent
  | true =>
      exact present

theorem reads_accept_if
    {inClass : Lexeme → Bool} {leftThen leftElse rightThen rightElse : TypeReader α}
    (told : Told pair atEnd inClass)
    (present : Reads pair atEnd view leftThen rightThen)
    (absent : Reads pair atEnd view leftElse rightElse) :
    Reads pair atEnd view
      (accept inClass >>= fun found => if found = true then leftThen else leftElse)
      (accept inClass >>= fun found => if found = true then rightThen else rightElse) := by
  refine (reads_accept told).bind fun found other same => ?_
  cases same
  exact reads_if present absent

/-- Where the symbol is absent there has to be further input. -/
theorem reads_accept_if_closed
    {inClass : Lexeme → Bool} {leftThen leftElse rightThen rightElse : TypeReader α}
    (told : Told pair False inClass)
    (present : Reads pair atEnd view leftThen rightThen)
    (absent : Reads pair atEnd view leftElse rightElse)
    (absentFails : FailsAtEnd leftElse) :
    Reads pair atEnd view
      (accept inClass >>= fun found => if found = true then leftThen else leftElse)
      (accept inClass >>= fun found => if found = true then rightThen else rightElse) := by
  intro input front aligned
  cases aligned with
  | nil =>
      change Agree pair atEnd view [] (leftElse.run []) _
      by_cases empty : pair.back = []
      · have agree := absent .nil
        rw [empty] at agree ⊢
        exact agree
      · obtain ⟨error, fails⟩ := absentFails
        rw [fails]
        exact Or.inl empty
  | @cons head other tail after kin rests =>
      rw [run_bind, run_bind, List.cons_append, run_accept_cons, run_accept_cons, told.same kin]
      cases member : inClass head with
      | false =>
          exact absent (rests.cons kin)
      | true =>
          exact (present rests).of_paired (paired_plain (told.plain member) tail)

theorem reads_optionalType
    {inClass : Lexeme → Bool}
    (told : Told pair atEnd inClass)
    (type : Reads pair True (TypeExpr.mapText pair.text) left right) :
    Reads pair atEnd (Option.map (TypeExpr.mapText pair.text)) (optionalType (accept inClass) left)
      (optionalType (accept inClass) right) :=
  reads_accept_if told
    (type.weaken.bind fun _ _ same => reads_pure (congrArg some same))
    (reads_pure rfl)

theorem reads_untilClosed_expect
    {kind : Symbol} {isSeparator : Lexeme → Bool} {leftItem rightItem : TypeReader α}
    {leftNext rightNext : List α → TypeReader β} {image : β → δ}
    (plain : (Token.symbol kind).isPlain)
    (place : Place)
    (told : Told pair False isSeparator)
    (item : Reads pair False view leftItem rightItem)
    (next : ∀ values others, others.map view = values.map view →
      Reads pair atEnd image (leftNext values) (rightNext others)) :
    Reads pair atEnd image
      (untilClosed (isSymbol kind) isSeparator leftItem >>= fun values =>
        expect kind place >>= fun _ => leftNext values)
      (untilClosed (isSymbol kind) isSeparator rightItem >>= fun values =>
        expect kind place >>= fun _ => rightNext values) :=
  (reads_untilClosed (fun kin => isSymbol_eq_of_lexeme kin kind) told item).bind_closed
    (fun values others sames => (reads_expect plain place).bind fun _ _ _ =>
      next values others sames)
    (fun _ => failsAtEnd_expect kind place _)

theorem reads_typeArguments (type : Reads pair True (TypeExpr.mapText pair.text) left right) :
    Reads pair atEnd (List.map (TypeExpr.mapText pair.text)) (typeArguments left) (typeArguments right) := by
  refine type.weaken.bind fun first other same => ?_
  refine reads_accept_if_closed (told_symbol rfl False.elim) ?_ ?_ (failsAtEnd_expect _ _ _)
  · exact reads_untilClosed_expect rfl _ (told_symbol rfl False.elim) type.weaken
      fun values others sames => reads_pure (by rw [List.map_cons, List.map_cons, same, sames])
  · exact (reads_expect rfl _).bind fun _ _ _ => reads_pure (by rw [List.map_cons, same]; rfl)

theorem reads_reference
    {leftInner rightInner : Option Level}
    (inner : Inner pair leftInner rightInner) :
    Reads pair True (TypeExpr.mapText pair.text) (reference leftInner) (reference rightInner) := by
  refine (reads_separated (told_symbol rfl fun _ => rfl) (reads_name _)).bind fun path other same =>
    ?_
  rw [List.map_id, List.map_id] at same
  cases same
  refine reads_accept_if (told_symbol rfl fun _ => rfl) ?_ (reads_pure rfl)
  refine (reads_within inner fun levels => reads_typeArguments levels.type).bind
    fun values others sames => reads_pure ?_
  rw [TypeExpr.mapText, TypeExpr.mapText, mapTextOfAll_eq_map, mapTextOfAll_eq_map, sames]

theorem reads_tupleElement (type : Reads pair True (TypeExpr.mapText pair.text) left right) :
    Reads pair False (TypeExpr.mapText pair.text) (tupleElement left) (tupleElement right) := by
  refine (reads_accept (told_symbol rfl False.elim)).bind fun spread _ sameSpread => ?_
  cases sameSpread
  refine type.weaken.bind fun element other same => ?_
  refine (reads_accept (told_symbol rfl False.elim)).bind fun _ _ _ => reads_pure ?_
  cases spread with
  | false =>
      exact same
  | true =>
      exact congrArg TypeExpr.rest same

theorem reads_tuple
    {leftInner rightInner : Option Level}
    (inner : Inner pair leftInner rightInner) :
    Reads pair True (TypeExpr.mapText pair.text) (tuple leftInner) (tuple rightInner) := by
  refine reads_within inner fun levels => (reads_expect rfl _).bind fun _ _ _ => ?_
  refine reads_untilClosed_expect rfl _ (told_symbol rfl False.elim)
    (reads_tupleElement levels.type) fun elements others sames => reads_pure ?_
  rw [TypeExpr.mapText, TypeExpr.mapText, mapTextOfAll_eq_map, mapTextOfAll_eq_map, sames]

theorem reads_typeParameter (type : Reads pair True (TypeExpr.mapText pair.text) left right) :
    Reads pair False (TypeParameter.mapText pair.text) (typeParameter left)
      (typeParameter right) := by
  refine (reads_name _).bind fun text _ same => ?_
  cases same
  refine (reads_optionalType (told_word _) type).bind fun constraint _ sameConstraint => ?_
  refine (reads_optionalType (told_symbol rfl False.elim) type).bind fun default _ sameDefault =>
    reads_pure ?_
  simp only [TypeParameter.mapText, mapTextOfOptional_eq_map, sameConstraint, sameDefault]

theorem reads_typeParameters (type : Reads pair True (TypeExpr.mapText pair.text) left right) :
    Reads pair False (List.map (TypeParameter.mapText pair.text)) (typeParameters left)
      (typeParameters right) :=
  reads_accept_if (told_symbol rfl False.elim)
    (reads_untilClosed_expect rfl _ (told_symbol rfl False.elim) (reads_typeParameter type)
      fun _ _ sames => reads_pure sames)
    (reads_pure rfl)

theorem reads_parameter (type : Reads pair True (TypeExpr.mapText pair.text) left right) :
    Reads pair False (Parameter.mapText pair.text) (parameter left) (parameter right) := by
  refine (reads_accept (told_symbol rfl False.elim)).bind fun _ _ _ => ?_
  refine (reads_name _).bind fun text _ same => ?_
  cases same
  refine (reads_accept (told_symbol rfl False.elim)).bind fun _ _ _ => ?_
  refine (reads_optionalType (told_symbol rfl False.elim) type).bind fun _ _ sameType =>
    reads_pure ?_
  simp only [Parameter.mapText, mapTextOfOptional_eq_map, sameType]

/-! ## Parentheses -/

def enclosed (opening closing : Place) (body : TypeReader α) : TypeReader α := do
  expect .openParen opening
  let inside ← body
  expect .closeParen closing
  return inside

theorem run_expect_bind_cons
    (kind : Symbol) (place : Place) (next : Unit → TypeReader α)
    (head : Lexeme) (tail : List Lexeme) :
    (expect kind place >>= next).run (head :: tail) =
      if isSymbol kind head then (next ()).run tail
      else .error (.unexpectedToken head.token head.start ⟨some kind, place⟩) := by
  rw [run_bind, run_expect_cons]
  cases isSymbol kind head <;> rfl

theorem closesBeforeArrow_open
    {head : Lexeme} (opens : isSymbol .openParen head) (opened : Nat) (rest : List Lexeme) :
    closesBeforeArrow opened (head :: rest) = closesBeforeArrow (opened + 1) rest := by
  rw [closesBeforeArrow, eq_of_beq opens]

theorem closesBeforeArrow_close
    {head : Lexeme} (closes : isSymbol .closeParen head) (opened : Nat) (rest : List Lexeme) :
    closesBeforeArrow opened (head :: rest) =
      if opened ≤ 1 then (rest.head?.map (isSymbol .arrow)).getD false
      else closesBeforeArrow (opened - 1) rest := by
  rw [closesBeforeArrow, eq_of_beq closes]

theorem isPlain_of_not
    {lexeme : Lexeme}
    (notOpen : ¬ isSymbol .openParen lexeme)
    (notClose : ¬ isSymbol .closeParen lexeme) :
    lexeme.token.isPlain := by
  simp_all [isSymbol, Token.isPlain]

/-- The scan sees no difference between corresponding lexemes. -/
theorem closesBeforeArrow_append
    {input front : List Lexeme} (aligned : List.Forall₂ pair.lexeme input front)
    (opened : Nat) (after : List Lexeme) :
    closesBeforeArrow opened (front ++ after) = closesBeforeArrow opened (input ++ after) := by
  induction aligned generalizing opened with
  | nil =>
      rfl
  | @cons first other rest otherRest kin rests inner =>
      rw [List.cons_append, List.cons_append]
      by_cases opens : isSymbol .openParen first
      · rw [closesBeforeArrow_open opens,
          closesBeforeArrow_open ((isSymbol_eq_of_lexeme kin _).trans opens), inner]
      · by_cases closes : isSymbol .closeParen first
        · rw [closesBeforeArrow_close closes,
            closesBeforeArrow_close ((isSymbol_eq_of_lexeme kin _).trans closes), inner]
          have behind : (otherRest ++ after).head?.map (isSymbol .arrow) =
              (rest ++ after).head?.map (isSymbol .arrow) := by
            cases rests with
            | nil =>
                rfl
            | cons kinNext _ =>
                exact congrArg some (isSymbol_eq_of_lexeme kinNext _)
          rw [behind]
        · have plain := isPlain_of_not opens closes
          rw [← isSymbol_eq_of_lexeme kin] at opens closes
          rw [closesBeforeArrow_plain plain, closesBeforeArrow_plain (isPlain_of_not opens closes),
            inner]

theorem closesBeforeArrow_mono
    {input : List Lexeme} {opened : Nat}
    (found : closesBeforeArrow opened input) (after : List Lexeme) :
    closesBeforeArrow opened (input ++ after) := by
  induction input generalizing opened with
  | nil =>
      rw [closesBeforeArrow] at found
      cases found
  | cons first rest inner =>
      rw [List.cons_append]
      by_cases opens : isSymbol .openParen first
      · rw [closesBeforeArrow_open opens] at found ⊢
        exact inner found
      · by_cases closes : isSymbol .closeParen first
        · rw [closesBeforeArrow_close closes] at found ⊢
          split at found
          · next last =>
            rw [if_pos last]
            cases rest with
            | nil =>
                cases found
            | cons next _ =>
                exact found
          · next further =>
            rw [if_neg further]
            exact inner found
        · have plain := isPlain_of_not opens closes
          rw [closesBeforeArrow_plain plain] at found ⊢
          exact inner found

theorem Paired.enclosed
    {first last : Lexeme} {inside rest : List Lexeme}
    (opens : isSymbol .openParen first)
    (closes : isSymbol .closeParen last)
    (paired : Paired inside (last :: rest)) :
    Paired (first :: inside) rest := by
  intro opened after
  rw [List.cons_append, closesBeforeArrow_open opens, paired (opened + 1), List.cons_append,
    closesBeforeArrow_close closes, if_neg (by omega)]
  rfl

theorem agree_closing
    {first : Lexeme} {inside middle middles : List Lexeme} {value other : α}
    (closing : Place)
    (opens : isSymbol .openParen first)
    (paired : Paired inside middle)
    (aligned : List.Forall₂ pair.lexeme middle middles)
    (same : view other = view value) :
    Agree pair atEnd view (first :: inside)
      ((expect .closeParen closing >>= fun _ => pure value).run middle)
      ((expect .closeParen closing >>= fun _ => pure other).run (middles ++ pair.back)) := by
  cases aligned with
  | nil =>
      by_cases empty : pair.back = []
      · rw [empty]
        exact Or.inr ⟨_, rfl, Or.inr (.atEnd _)⟩
      · exact Or.inl empty
  | @cons last otherLast rest after kin rests =>
      rw [List.cons_append, run_expect_bind_cons, run_expect_bind_cons, isSymbol_eq_of_lexeme kin]
      by_cases closes : isSymbol .closeParen last
      · rw [if_pos closes, if_pos closes]
        exact ⟨paired.enclosed opens closes, after, rests, Or.inl ⟨other, same, rfl⟩⟩
      · rw [if_neg closes, if_neg closes]
        exact Or.inr ⟨_, rfl, Or.inr (.at _ kin)⟩

theorem reads_enclosed
    {leftBody rightBody : TypeReader α}
    (opening closing : Place)
    (body : Reads pair False view leftBody rightBody) :
    Reads pair atEnd view (enclosed opening closing leftBody)
      (enclosed opening closing rightBody) := by
  intro input front aligned
  cases aligned with
  | nil =>
      exact agree_nil_of_fails rfl rfl (.atEnd _)
  | @cons head other tail after kin rest =>
      rw [List.cons_append, enclosed, enclosed, run_expect_bind_cons, run_expect_bind_cons,
        isSymbol_eq_of_lexeme kin]
      by_cases opens : isSymbol .openParen head
      · rw [if_pos opens, if_pos opens, run_bind, run_bind]
        have agree := body rest
        cases ran : leftBody.run tail with
        | error error =>
            rw [ran] at agree
            rcases agree with occupied | ⟨other, fails, kin⟩
            · exact Or.inl occupied
            · rw [fails]
              exact Or.inr ⟨other, rfl, kin⟩
        | ok success =>
            obtain ⟨value, middle⟩ := success
            rw [ran] at agree
            obtain ⟨paired, middles, aligned, same | deep | left⟩ := agree
            · obtain ⟨otherValue, sameView, outcome⟩ := same
              rw [outcome]
              exact agree_closing closing opens paired aligned sameView
            · rw [deep.2]
              exact (agree_closing closing opens paired aligned rfl).tooDeep deep.1
            · obtain ⟨_, occupied, rfl⟩ := left
              exact Or.inl occupied
      · rw [if_neg opens, if_neg opens]
        exact Or.inr ⟨_, rfl, Or.inr (.at _ kin)⟩

theorem reads_parameters (type : Reads pair True (TypeExpr.mapText pair.text) left right) :
    Reads pair atEnd (List.map (Parameter.mapText pair.text)) (parameters left)
      (parameters right) :=
  reads_enclosed _ _
    (reads_untilClosed (fun kin => isSymbol_eq_of_lexeme kin _) (told_symbol rfl False.elim)
      (reads_parameter type))

/-! ## Decisions on two tokens -/

/-- The tokens that a decision is made on. -/
def firstTwo (input : List Lexeme) : List Token :=
  (input.take 2).map Lexeme.token

theorem run_nextTwo_bind (branch : List Token → TypeReader α) (input : List Lexeme) :
    (nextTwo >>= branch).run input = (branch (firstTwo input)).run input :=
  rfl

/-- Corresponding tokens to decide on. Only a string literal in front may have another text. -/
inductive Decisive (pair : Alignment) : List Token → List Token → Prop where
  | same (tokens : List Token) : Decisive pair tokens tokens
  | text {text other : String} (rest : List Token) :
      pair.text other = pair.text text →
      Decisive pair (.string text :: rest) (.string other :: rest)

theorem tokens_of_lexeme {first second : Lexeme} (kin : pair.lexeme first second) :
    second.token = first.token ∨
      ∃ text other, first.token = .string text ∧ second.token = .string other ∧
        pair.text other = pair.text text := by
  have same := pair.mapText_token kin
  rcases first with ⟨_ | _ | _ | _, _, _⟩ <;> rcases second with ⟨_ | _ | _ | _, _, _⟩ <;>
    simp_all [Token.mapText]

/-- Two runs agree if they do wherever the first tokens are decisive, and what else may stand there
does not change the decision of the second run. -/
theorem agree_nextTwo
    {leftBranch rightBranch : List Token → TypeReader α} {input front : List Lexeme}
    (aligned : List.Forall₂ pair.lexeme input front)
    (atBack : ∀ kind after, kind.endsType →
      rightBranch (.symbol kind :: after) = rightBranch [])
    (beforeBack : ∀ last kind, front = [last] → kind.endsType →
      rightBranch [last.token, .symbol kind] = rightBranch [last.token])
    (beforeText : ∀ token text other,
      rightBranch [token, .string text] = rightBranch [token, .string other])
    (agree : ∀ tokens others, Decisive pair tokens others → firstTwo input = tokens →
      Agree pair atEnd view input ((leftBranch tokens).run input)
        ((rightBranch others).run (front ++ pair.back))) :
    Agree pair atEnd view input ((nextTwo >>= leftBranch).run input)
      ((nextTwo >>= rightBranch).run (front ++ pair.back)) := by
  rw [run_nextTwo_bind, run_nextTwo_bind]
  have decided : ∃ others, Decisive pair (firstTwo input) others ∧
      rightBranch (firstTwo (front ++ pair.back)) = rightBranch others := by
    rcases aligned with _ | @⟨first, other, _, _, kin, rests⟩
    · refine ⟨[], .same [], ?_⟩
      cases back : pair.back with
      | nil =>
          rfl
      | cons head tail =>
          obtain ⟨kind, token, ends⟩ := pair.back_ends head (by rw [back]; rfl)
          rw [List.nil_append, firstTwo, List.take_succ_cons, List.map_cons, token]
          exact atBack kind _ ends
    · have begun : ∀ rest, Decisive pair (first.token :: rest) (other.token :: rest) := by
        intro rest
        rcases tokens_of_lexeme kin with same | ⟨text, otherText, token, otherToken, same⟩
        · rw [same]
          exact .same _
        · rw [token, otherToken]
          exact .text rest same
      rcases rests with _ | @⟨second, otherSecond, _, _, kinSecond, rests⟩
      · refine ⟨[other.token], begun [], ?_⟩
        cases back : pair.back with
        | nil =>
            rfl
        | cons head tail =>
            obtain ⟨kind, token, ends⟩ := pair.back_ends head (by rw [back]; rfl)
            have same := beforeBack other kind rfl ends
            rw [← token] at same
            exact same
      · refine ⟨[other.token, second.token], begun [second.token], ?_⟩
        change rightBranch [other.token, otherSecond.token] = _
        rcases tokens_of_lexeme kinSecond with same | ⟨text, otherText, token, otherToken, _⟩
        · rw [same]
        · rw [token, otherToken]
          exact beforeText _ _ _
  obtain ⟨others, decisive, same⟩ := decided
  rw [same]
  exact agree _ others decisive rfl

theorem reads_nextTwo
    {leftBranch rightBranch : List Token → TypeReader α}
    (atBack : ∀ kind after, kind.endsType →
      rightBranch (.symbol kind :: after) = rightBranch [])
    (beforeBack : ∀ token kind, kind.endsType →
      rightBranch [token, .symbol kind] = rightBranch [token])
    (beforeText : ∀ token text other,
      rightBranch [token, .string text] = rightBranch [token, .string other])
    (agree : ∀ tokens others input front, Decisive pair tokens others → firstTwo input = tokens →
      List.Forall₂ pair.lexeme input front →
      Agree pair atEnd view input ((leftBranch tokens).run input)
        ((rightBranch others).run (front ++ pair.back))) :
    Reads pair atEnd view (nextTwo >>= leftBranch) (nextTwo >>= rightBranch) :=
  fun input front aligned =>
    agree_nextTwo aligned atBack (fun last kind _ => beforeBack last.token kind) beforeText
      fun tokens others decisive peek => agree tokens others input front decisive peek aligned

theorem agree_skip_one
    {leftNext rightNext : TypeReader α} {token : Token} {tokens : List Token}
    {input front : List Lexeme}
    (reads : Reads pair atEnd view leftNext rightNext)
    (plain : token.isPlain)
    (peek : firstTwo input = token :: tokens)
    (aligned : List.Forall₂ pair.lexeme input front) :
    Agree pair atEnd view input ((skip 1 >>= fun _ => leftNext).run input)
      ((skip 1 >>= fun _ => rightNext).run (front ++ pair.back)) := by
  cases aligned with
  | nil =>
      cases peek
  | @cons first otherFirst rest after kin rests =>
      have head : first.token = token := (List.cons.inj peek).1
      exact (reads rests).of_paired (paired_plain (head ▸ plain) rest)

theorem agree_skip_two
    {leftNext rightNext : TypeReader α} {first second : Token} {input front : List Lexeme}
    (reads : Reads pair atEnd view leftNext rightNext)
    (plainFirst : first.isPlain)
    (plainSecond : second.isPlain)
    (peek : firstTwo input = [first, second])
    (aligned : List.Forall₂ pair.lexeme input front) :
    Agree pair atEnd view input ((skip 2 >>= fun _ => leftNext).run input)
      ((skip 2 >>= fun _ => rightNext).run (front ++ pair.back)) := by
  rcases aligned with _ | ⟨kinFirst, _ | ⟨kinSecond, rests⟩⟩
  · cases peek
  · cases peek
  · cases peek
    exact ((reads rests).of_paired (paired_plain plainSecond _)).of_paired
      (paired_plain plainFirst _)

theorem reads_result (type : Reads pair True (TypeExpr.mapText pair.text) left right) :
    Reads pair True (TypeExpr.mapText pair.text) (result left) (result right) := by
  refine reads_nextTwo (fun _ _ _ => rfl) ?_ ?_ ?_
  · intro token kind _
    cases token with
    | name text =>
        split <;> simp_all
    | _ =>
        rfl
  · intro token text other
    cases token with
    | name text =>
        split <;> simp_all
    | _ =>
        rfl
  · intro tokens others input front decisive peek aligned
    cases decisive with
    | text rest _ =>
        exact type aligned
    | same =>
        split
        · exact agree_skip_two (reads_accept_if (told_word _) type (reads_pure rfl)) rfl rfl peek
            aligned
        · exact agree_skip_two type rfl rfl peek aligned
        · exact type aligned

theorem reads_function
    {leftInner rightInner : Option Level}
    (inner : Inner pair leftInner rightInner) :
    Reads pair True (TypeExpr.mapText pair.text) (function leftInner) (function rightInner) := by
  refine reads_within inner fun levels => ?_
  refine (reads_typeParameters levels.type).bind_closed (fun types others sameTypes => ?_)
    fun _ => failsAtEnd_bind _ fun _ => failsAtEnd_expect _ _ _
  refine (reads_parameters levels.type).bind fun values otherValues sameValues => ?_
  refine (reads_expect rfl _).bind fun _ _ _ => ?_
  refine (reads_result levels.type).bind fun _ _ same => reads_pure ?_
  simp only [TypeExpr.mapText, mapTextOfTypeParameters_eq_map, mapTextOfParameters_eq_map,
    sameTypes, sameValues]
  exact congrArg _ same

theorem reads_method (type : Reads pair True (TypeExpr.mapText pair.text) left right) :
    Reads pair False (TypeExpr.mapText pair.text) (method left) (method right) := by
  refine (reads_typeParameters type).bind fun types others sameTypes => ?_
  refine (reads_parameters type).bind fun values otherValues sameValues => ?_
  have same : ∀ {result other : TypeExpr}, TypeExpr.mapText pair.text other = TypeExpr.mapText pair.text result →
      TypeExpr.mapText pair.text (.function others otherValues other) =
        TypeExpr.mapText pair.text (.function types values result) := by
    intro result other same
    simp only [TypeExpr.mapText, mapTextOfTypeParameters_eq_map,
      mapTextOfParameters_eq_map, sameTypes, sameValues]
    exact congrArg _ same
  refine reads_accept_if (told_symbol rfl False.elim) ?_ (reads_pure (same rfl))
  exact (reads_result type).weaken.bind fun _ _ sameResult => reads_pure (same sameResult)

/-! ## Members -/

def propertyValue (type : TypeReader TypeExpr) (key : String) : TypeReader Member := do
  let _ ← acceptSymbol .question
  if ← next (fun lexeme => isSymbol .openParen lexeme || isSymbol .less lexeme) then
    return .property key (← method type)
  else
    expect .colon .afterObjectKey
    return .property key (← type)

theorem reads_propertyValue
    (type : Reads pair True (TypeExpr.mapText pair.text) left right)
    {key other : String} (same : pair.text other = pair.text key) :
    Reads pair False (Member.mapText pair.text) (propertyValue left key)
      (propertyValue right other) := by
  have property : ∀ {value otherValue : TypeExpr}, TypeExpr.mapText pair.text otherValue = TypeExpr.mapText pair.text value →
      Member.mapText pair.text (.property other otherValue) =
        Member.mapText pair.text (.property key value) := by
    intro value otherValue sameValue
    rw [Member.mapText, Member.mapText, same]
    exact congrArg _ sameValue
  refine (reads_accept (told_symbol rfl False.elim)).bind fun _ _ _ => ?_
  have looked : Reads pair False id
      (next fun lexeme => isSymbol .openParen lexeme || isSymbol .less lexeme)
      (next fun lexeme => isSymbol .openParen lexeme || isSymbol .less lexeme) :=
    reads_next fun kin => by rw [isSymbol_eq_of_lexeme kin, isSymbol_eq_of_lexeme kin]
  refine looked.bind fun found _ sameFound => ?_
  cases sameFound
  refine reads_if ?_ ?_
  · exact (reads_method type).bind fun _ _ sameValue => reads_pure (property sameValue)
  · exact (reads_expect rfl _).bind fun _ _ _ =>
      type.weaken.bind fun _ _ sameValue => reads_pure (property sameValue)

theorem reads_property (type : Reads pair True (TypeExpr.mapText pair.text) left right) :
    Reads pair False (Member.mapText pair.text) (property left) (property right) := by
  refine reads_nextTwo (fun _ _ _ => rfl) (fun token _ _ => by cases token <;> rfl)
    (fun token _ _ => by cases token <;> rfl) ?_
  intro tokens others input front decisive peek aligned
  cases decisive with
  | text rest same =>
      exact agree_skip_one (reads_propertyValue type same) rfl peek aligned
  | same =>
      split
      · exact agree_skip_one (reads_propertyValue type rfl) rfl peek aligned
      · exact agree_skip_one (reads_propertyValue type rfl) rfl peek aligned
      · exact agree_skip_one (reads_propertyValue type rfl) rfl peek aligned
      · exact reads_unexpected _ aligned

theorem reads_mappedModifier : Reads pair False id mappedModifier mappedModifier :=
  reads_accept_if ((told_symbol rfl False.elim).or (told_symbol rfl False.elim))
    (reads_expect rfl _)
    ((reads_accept (told_symbol rfl False.elim)).bind fun _ _ _ => reads_pure rfl)

theorem reads_bracketedMember (type : Reads pair True (TypeExpr.mapText pair.text) left right) :
    Reads pair False (Member.mapText pair.text) (bracketedMember left) (bracketedMember right) := by
  refine (reads_name _).bind fun key _ same => ?_
  cases same
  refine reads_accept_if (told_word _) ?_ ?_
  · refine type.weaken.bind fun source _ sameSource => ?_
    refine (reads_optionalType (told_word _) type).bind fun rename _ sameRename => ?_
    refine (reads_expect rfl _).bind fun _ _ _ => ?_
    refine reads_mappedModifier.bind fun _ _ _ => ?_
    refine (reads_expect rfl _).bind fun _ _ _ => ?_
    refine type.weaken.bind fun value _ sameValue => reads_pure ?_
    simp only [Member.mapText, mapTextOfOptional_eq_map, sameRename]
    rw [sameSource, sameValue]
  · refine (reads_expect rfl _).bind fun _ _ _ => ?_
    refine type.weaken.bind fun keyType _ sameKey => ?_
    refine (reads_expect rfl _).bind fun _ _ _ => ?_
    refine (reads_expect rfl _).bind fun _ _ _ => ?_
    refine type.weaken.bind fun value _ sameValue => reads_pure ?_
    rw [Member.mapText, Member.mapText, sameKey, sameValue]

theorem reads_readonlySign : Reads pair False id readonlySign readonlySign := by
  refine reads_nextTwo ?_ ?_ ?_ ?_
  · intro kind after ends
    split <;> simp_all [Symbol.endsType]
  · intro token kind ends
    split <;> simp_all
  · intro token text other
    split <;> simp_all
  · intro tokens others input front decisive peek aligned
    cases decisive with
    | text rest _ =>
        exact reads_pure rfl aligned
    | same =>
        split
        · exact agree_skip_one (reads_pure rfl) rfl peek aligned
        · exact agree_skip_one (reads_pure rfl) rfl peek aligned
        · exact reads_pure rfl aligned

/-- The word alone may be taken for the key of a property in the second run, but then the first is
at its end. -/
theorem reads_readonlyWord : Reads pair False id readonlyWord readonlyWord := by
  intro input front aligned
  by_cases alone : ∃ word, input = [word] ∧ word.token = .name "readonly"
  · obtain ⟨word, rfl, token⟩ := alone
    rcases aligned with _ | @⟨_, other, _, _, kin, rests⟩
    cases rests
    have taken : ∀ {lexeme : Lexeme}, lexeme.token = .name "readonly" →
        readonlyWord.run [lexeme] = .ok ((), []) := by
      rintro ⟨_, start, stop⟩ ⟨⟩
      rfl
    rw [taken token]
    refine ⟨paired_plain (token ▸ rfl) [], [], List.Forall₂.nil, ?_⟩
    by_cases empty : pair.back = []
    · rw [empty]
      exact Or.inl ⟨(), rfl, taken ((token_eq_name_iff kin).mpr token)⟩
    · exact Or.inr (Or.inr ⟨id, empty, rfl⟩)
  · refine agree_nextTwo aligned (fun _ _ _ => rfl) ?_ ?_ ?_
    · rintro last kind rfl ends
      have other : last.token ≠ .name "readonly" := by
        intro token
        rcases aligned with _ | @⟨first, _, _, _, kin, rests⟩
        cases rests
        exact alone ⟨first, rfl, (token_eq_name_iff kin).mp token⟩
      split <;> simp_all
    · intro token text other
      split <;> simp_all
    · intro tokens others decisive peek
      cases decisive with
      | text rest _ =>
          exact reads_pure rfl aligned
      | same =>
          split
          · exact reads_pure rfl aligned
          · exact reads_pure rfl aligned
          · exact reads_pure rfl aligned
          · exact reads_pure rfl aligned
          · exact agree_skip_one (reads_pure rfl) rfl peek aligned
          · exact reads_pure rfl aligned

theorem reads_member (type : Reads pair True (TypeExpr.mapText pair.text) left right) :
    Reads pair False (Member.mapText pair.text) (member left) (member right) := by
  refine reads_readonlySign.bind fun _ _ _ => ?_
  refine reads_readonlyWord.bind fun _ _ _ => ?_
  exact reads_accept_if (told_symbol rfl False.elim) (reads_bracketedMember type)
    (reads_property type)

theorem reads_object
    {leftInner rightInner : Option Level}
    (inner : Inner pair leftInner rightInner) :
    Reads pair True (TypeExpr.mapText pair.text) (object leftInner) (object rightInner) := by
  refine reads_within inner fun levels => (reads_expect rfl _).bind fun _ _ _ => ?_
  refine reads_untilClosed_expect rfl _
    ((told_symbol rfl False.elim).or (told_symbol rfl False.elim))
    (reads_member levels.type) fun members others sames => reads_pure ?_
  rw [TypeExpr.mapText, TypeExpr.mapText, mapTextOfMembers_eq_map, mapTextOfMembers_eq_map,
    sames]

/-! ## Types -/

theorem reads_negativeNumber
    {input front : List Lexeme} {tokens : List Token}
    (peek : firstTwo input = .symbol .minus :: tokens)
    (aligned : List.Forall₂ pair.lexeme input front) :
    Agree pair True (TypeExpr.mapText pair.text) input (negativeNumber.run input)
      (negativeNumber.run (front ++ pair.back)) := by
  refine agree_skip_one (reads_nextTwo (fun _ _ _ => rfl) (fun token _ _ => by cases token <;> rfl)
    (fun token _ _ => by cases token <;> rfl) ?_) rfl peek aligned
  intro tokens others input front decisive peek aligned
  cases decisive with
  | text rest same =>
      exact reads_unexpected _ aligned
  | same =>
      split
      · exact agree_skip_one (reads_pure rfl) rfl peek aligned
      · exact reads_unexpected _ aligned

theorem run_parenthesized
    {head : Lexeme} (opens : isSymbol .openParen head)
    (type : TypeReader TypeExpr) (tail : List Lexeme) :
    (parenthesized type).run (head :: tail) =
      (enclosed .type .parenthesesEnd type).run (head :: tail) := by
  rw [enclosed, run_expect_bind_cons, if_pos opens]
  rfl

theorem run_enclosed_eq_ok
    {opening closing : Place} {body : TypeReader α}
    {head : Lexeme} {tail rest : List Lexeme} {value : α}
    (ran : (enclosed opening closing body).run (head :: tail) = .ok (value, rest)) :
    isSymbol .openParen head ∧
      ∃ last, isSymbol .closeParen last ∧ body.run tail = .ok (value, last :: rest) := by
  rw [enclosed, run_expect_bind_cons] at ran
  split at ran
  · next opens =>
    refine ⟨opens, ?_⟩
    rw [run_bind] at ran
    split at ran
    · cases ran
    · next inside middle bodyRan =>
      cases middle with
      | nil =>
          cases ran
      | cons last final =>
          rw [run_expect_bind_cons] at ran
          split at ran
          · next closes =>
            cases ran
            exact ⟨last, closes, bodyRan⟩
          · cases ran
  · cases ran

/-- Behind a type in parentheses the scan for a function looks at the next symbol. -/
theorem closesBeforeArrow_enclosed
    {first last : Lexeme} {inside rest : List Lexeme}
    (opens : isSymbol .openParen first)
    (closes : isSymbol .closeParen last)
    (paired : Paired inside (last :: rest))
    (after : List Lexeme) :
    closesBeforeArrow 0 (first :: inside ++ after) =
      (((rest ++ after).head?.map (isSymbol .arrow)).getD false) := by
  rw [List.cons_append, closesBeforeArrow_open opens, paired 0, List.cons_append,
    closesBeforeArrow_close closes, if_pos (Nat.le_refl 1)]

theorem operationOrReference_of_ends
    {kind : Symbol} (ends : kind.endsType) (inner : Option Level) (word : String) :
    operationOrReference inner word (some (.symbol kind)) =
      operationOrReference inner word none := by
  have other : beginsOperand (.symbol kind) = false := by
    cases kind <;> first | rfl | cases ends
  unfold operationOrReference
  rw [Option.map_some, other]
  rfl

theorem reads_parenthesized
    {head other : Lexeme} {tail after : List Lexeme}
    {leftInner rightInner : Option Level}
    (type : Reads pair True (TypeExpr.mapText pair.text) left right)
    (inner : Inner pair leftInner rightInner)
    (opens : isSymbol .openParen head)
    (kin : pair.lexeme head other)
    (rests : List.Forall₂ pair.lexeme tail after) :
    Agree pair True (TypeExpr.mapText pair.text) (head :: tail)
      ((if closesBeforeArrow 0 (head :: tail) then function leftInner
        else parenthesized left).run (head :: tail))
      ((if closesBeforeArrow 0 (other :: after ++ pair.back) then function rightInner
        else parenthesized right).run (other :: after ++ pair.back)) := by
  have aligned := rests.cons kin
  rw [closesBeforeArrow_append aligned]
  by_cases closes : closesBeforeArrow 0 (head :: tail)
  · rw [if_pos closes, if_pos (closesBeforeArrow_mono closes pair.back)]
    exact reads_function inner aligned
  · rw [if_neg closes, run_parenthesized opens]
    have reads : Reads pair True (TypeExpr.mapText pair.text)
        (enclosed .type .parenthesesEnd left) (enclosed .type .parenthesesEnd right) :=
      reads_enclosed .type .parenthesesEnd type.weaken
    have agree := reads aligned
    by_cases closesLater : closesBeforeArrow 0 (head :: tail ++ pair.back)
    · -- The scan went beyond the first input, so no parenthesis closes the first one there.
      rw [if_pos closesLater]
      cases ran : (enclosed .type .parenthesesEnd left).run (head :: tail) with
      | error error =>
          refine Or.inl fun empty => closes ?_
          rwa [empty, List.append_nil] at closesLater
      | ok success =>
          obtain ⟨value, rest⟩ := success
          obtain ⟨_, last, closed, inside⟩ := run_enclosed_eq_ok ran
          have agreeInside := type rests
          rw [inside] at agreeInside
          have found := closesBeforeArrow_enclosed opens closed agreeInside.1
          have before := found []
          rw [List.append_nil, List.append_nil] at before
          rw [before] at closes
          rw [found] at closesLater
          cases rest with
          | cons next _ =>
              exact absurd closesLater closes
          | nil =>
              rw [List.nil_append] at closesLater
              cases back : pair.back with
              | nil =>
                  rw [back] at closesLater
                  cases closesLater
              | cons next _ =>
                  have arrow : Told pair True (isSymbol .arrow) := told_symbol rfl fun _ => rfl
                  have outside := arrow.off trivial next (by rw [back]; rfl)
                  rw [back, List.head?_cons, Option.map_some, outside] at closesLater
                  cases closesLater
    · rw [if_neg closesLater, List.cons_append,
        run_parenthesized ((isSymbol_eq_of_lexeme kin _).trans opens)]
      exact agree

theorem reads_operationOrReference
    {leftInner rightInner : Option Level} {word : String} {followers : List Token}
    {input front : List Lexeme}
    (inner : Inner pair leftInner rightInner)
    (peek : firstTwo input = .name word :: followers)
    (aligned : List.Forall₂ pair.lexeme input front) :
    Agree pair True (TypeExpr.mapText pair.text) input
      ((operationOrReference leftInner word followers.head?).run input)
      ((operationOrReference rightInner word followers.head?).run (front ++ pair.back)) := by
  unfold operationOrReference
  split
  · refine agree_skip_one ?_ rfl peek aligned
    refine (reads_within inner Levels.operand).bind fun operand other same => reads_pure ?_
    rw [TypeExpr.mapText, TypeExpr.mapText, same]
  · exact reads_reference inner aligned

theorem reads_primary
    {leftInner rightInner : Option Level}
    (type : Reads pair True (TypeExpr.mapText pair.text) left right)
    (inner : Inner pair leftInner rightInner) :
    Reads pair True (TypeExpr.mapText pair.text) (primary left leftInner)
      (primary right rightInner) := by
  refine reads_nextTwo ?_ ?_ ?_ ?_
  · intro kind after ends
    split <;> simp_all [Symbol.endsType]
  · intro token kind ends
    split <;> simp_all
    · cases ends
    · cases ends
    · next same =>
      rw [← same.2]
      exact operationOrReference_of_ends ends rightInner _
  · intro token text other
    split <;> simp_all
    next same =>
      rw [← same.2]
      rfl
  · intro tokens others input front decisive peek aligned
    cases decisive with
    | text rest same =>
        exact agree_skip_one (reads_pure (congrArg TypeExpr.string same)) rfl peek aligned
    | same =>
        split
        · exact agree_skip_two (reads_pure rfl) rfl rfl peek aligned
        · exact agree_skip_one (reads_function inner) rfl peek aligned
        · exact agree_skip_one (reads_function inner) rfl peek aligned
        · exact reads_operationOrReference inner peek aligned
        · exact agree_skip_one (reads_pure rfl) rfl peek aligned
        · exact agree_skip_one (reads_pure rfl) rfl peek aligned
        · exact reads_function inner aligned
        · rcases aligned with _ | ⟨kin, rests⟩
          · cases peek
          · have opens := beq_of_eq (List.cons.inj peek).1
            exact reads_parenthesized type inner opens kin rests
        · exact reads_negativeNumber peek aligned
        · exact reads_tuple inner aligned
        · exact reads_object inner aligned
        · exact reads_unexpected _ aligned

theorem reads_accessBody (type : Reads pair True (TypeExpr.mapText pair.text) left right) :
    Reads pair True (Option.map (TypeExpr.mapText pair.text)) (accessBody left)
      (accessBody right) := by
  refine reads_accept_if_closed (told_symbol rfl False.elim) (reads_pure rfl) ?_
    (failsAtEnd_bind _ fun _ => failsAtEnd_expect _ _ _)
  exact type.bind fun _ _ same => (reads_expect rfl _).bind fun _ _ _ =>
    reads_pure (congrArg some same)

theorem mapText_access (change : String → String) (base : TypeExpr) (index : Option TypeExpr) :
    (access base index).mapText change =
      access (base.mapText change) (index.map (TypeExpr.mapText change)) := by
  cases index <;> rfl

theorem mapText_foldl_access
    (change : String → String) (base : TypeExpr) (accesses : List (Option TypeExpr)) :
    (accesses.foldl access base).mapText change =
      (accesses.map (Option.map (TypeExpr.mapText change))).foldl access
        (base.mapText change) := by
  induction accesses generalizing base with
  | nil =>
      rfl
  | cons index rest inner =>
      rw [List.foldl_cons, inner, mapText_access, List.map_cons, List.foldl_cons]

theorem reads_suffixed
    {leftInner rightInner : Option Level}
    (type : Reads pair True (TypeExpr.mapText pair.text) left right)
    (inner : Inner pair leftInner rightInner) :
    Reads pair True (TypeExpr.mapText pair.text) (suffixed left leftInner)
      (suffixed right rightInner) := by
  refine (reads_primary type inner).bind fun base other same => ?_
  refine (reads_separatedItems (told_symbol rfl fun _ => rfl) (reads_accessBody type)).bind
    fun accesses others sames => reads_pure ?_
  rw [mapText_foldl_access, mapText_foldl_access, same, sames]

theorem mapText_joined
    {change : String → String} {join : List TypeExpr → TypeExpr}
    (commutes : ∀ parts, (join parts).mapText change = join (parts.map (TypeExpr.mapText change)))
    (parts : List TypeExpr) :
    (TypeExpr.joined join parts).mapText change =
      TypeExpr.joined join (parts.map (TypeExpr.mapText change)) := by
  rcases parts with _ | ⟨first, _ | ⟨second, rest⟩⟩
  · exact commutes []
  · rfl
  · exact commutes (first :: second :: rest)

theorem reads_joinedBy
    {kind : Symbol} {join : List TypeExpr → TypeExpr}
    (plain : (Token.symbol kind).isPlain)
    (off : kind.endsType = false)
    (commutes : ∀ parts, (join parts).mapText pair.text =
      join (parts.map (TypeExpr.mapText pair.text)))
    (part : Reads pair True (TypeExpr.mapText pair.text) left right) :
    Reads pair True (TypeExpr.mapText pair.text) (joinedBy kind join left)
      (joinedBy kind join right) := by
  refine (reads_accept (told_symbol plain fun _ => off)).bind fun _ _ _ => ?_
  refine (reads_separated (told_symbol plain fun _ => off) part).bind
    fun parts others sames => reads_pure ?_
  rw [mapText_joined commutes, mapText_joined commutes, sames]

theorem reads_union (operand : Reads pair True (TypeExpr.mapText pair.text) left right) :
    Reads pair True (TypeExpr.mapText pair.text) (union left) (union right) := by
  refine reads_joinedBy rfl rfl (fun parts => ?_) (reads_joinedBy rfl rfl (fun parts => ?_) operand)
  · rw [TypeExpr.mapText, mapTextOfAll_eq_map]
  · rw [TypeExpr.mapText, mapTextOfAll_eq_map]

theorem reads_complete {leftLevel rightLevel : Level} (levels : Levels pair leftLevel rightLevel) :
    Reads pair True (TypeExpr.mapText pair.text) (complete leftLevel) (complete rightLevel) := by
  refine (reads_union levels.operand).bind fun check _ sameCheck => ?_
  refine reads_accept_if (told_word _) ?_ (reads_pure sameCheck)
  refine (reads_union levels.operand).bind fun bound _ sameBound => ?_
  refine (reads_expect rfl _).bind fun _ _ _ => ?_
  refine levels.type.bind fun whenTrue _ sameTrue => ?_
  refine (reads_expect rfl _).bind fun _ _ _ => ?_
  refine levels.type.bind fun whenFalse _ sameFalse => reads_pure ?_
  rw [TypeExpr.mapText, TypeExpr.mapText, sameCheck, sameBound, sameTrue, sameFalse]

/-- The readers of two levels agree if the second has no more nesting to spend, and less only where
it may. -/
theorem levels_level
    {nesting less : Nat}
    (bound : less ≤ nesting)
    (allowed : less < nesting → pair.shallower) :
    Levels pair (level nesting) (level less) := by
  induction nesting generalizing less with
  | zero =>
      rw [Nat.le_zero.mp bound]
      have type : Reads pair True (TypeExpr.mapText pair.text)
          (fail fun _ => .tooDeep) (fail fun _ => .tooDeep) :=
        fun _ _ _ => Or.inr ⟨_, rfl, Or.inr .tooDeep⟩
      exact ⟨type, reads_suffixed type .none⟩
  | succ nesting inner =>
      have same : Levels pair (level nesting) (level nesting) :=
        inner (Nat.le_refl nesting) fun less => absurd less (Nat.lt_irrefl nesting)
      cases less with
      | zero =>
          have shallower := allowed (Nat.succ_pos nesting)
          have type := (reads_complete same).tooDeep shallower
          exact ⟨type, reads_suffixed type (.cut shallower same)⟩
      | succ less =>
          have levels : Levels pair (level nesting) (level less) :=
            inner (Nat.le_of_succ_le_succ bound) fun lower => allowed (Nat.succ_lt_succ lower)
          have type := reads_complete levels
          exact ⟨type, reads_suffixed type (.some levels)⟩

end TypeReader

end TypeGraph
