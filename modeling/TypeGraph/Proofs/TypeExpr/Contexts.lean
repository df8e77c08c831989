import TypeGraph.Proofs.TypeExpr.Soundness
import TypeGraph.Proofs.TypeExpr.Spelling

/-!
# Types in contexts

A text that is a type expression keeps its meaning inside of a larger text: what stands behind it
does not change how it is read, unless the larger text is nested too deeply.
-/

namespace TypeGraph

namespace TypeReader

open Reader

variable {α : Type}

/-! ## What comes next -/

/-- Whether none of some symbols is next. -/
def Without (kinds : List Symbol) (back : List Lexeme) : Prop :=
  ∀ kind ∈ kinds, Lacks kind back

theorem without_cons
    {kinds : List Symbol} {head : Lexeme} {token : Token}
    (same : head.token = token)
    (off : ∀ kind ∈ kinds, token ≠ .symbol kind)
    (rest : List Lexeme) :
    Without kinds (head :: rest) := by
  intro kind member first isFirst
  cases isFirst
  rw [isSymbol, same, beq_eq_false_iff_ne]
  exact off kind member

/-- Whether nothing but a symbol is next. -/
def Meets (kind : Symbol) (back : List Lexeme) : Prop :=
  ∀ head ∈ back.head?, head.token = .symbol kind

theorem meets_cons
    {kind : Symbol} {head : Lexeme} (token : head.token = .symbol kind) (rest : List Lexeme) :
    Meets kind (head :: rest) := by
  intro first isFirst
  cases isFirst
  exact token

theorem Meets.lacks
    {kind other : Symbol} {back : List Lexeme}
    (meets : Meets kind back) (different : kind ≠ other) :
    Lacks other back := by
  intro head first
  rw [isSymbol, meets head first, beq_eq_false_iff_ne]
  intro same
  cases same
  exact different rfl

theorem Meets.without
    {kinds : List Symbol} {kind : Symbol} {back : List Lexeme}
    (meets : Meets kind back) (off : kind ∉ kinds) :
    Without kinds back :=
  fun _ member => meets.lacks fun same => off (same ▸ member)

theorem Follows.without
    {back : List Lexeme} (follows : Follows back)
    {kinds : List Symbol} (off : ∀ kind ∈ kinds, kind.endsType = false) :
    Without kinds back :=
  fun kind member => follows.lacks (off kind member)

theorem Without.of_subset
    {kinds more : List Symbol} {back : List Lexeme}
    (without : Without more back)
    (contained : kinds ⊆ more) :
    Without kinds back :=
  fun kind member => without kind (contained member)

theorem YieldsBefore.mono
    {before after : List Lexeme → Prop} {reader : TypeReader α} {tokens : List Token} {value : α}
    (yields : YieldsBefore before reader tokens value)
    (weaker : ∀ back, after back → before back) :
    YieldsBefore after reader tokens value :=
  fun _ back same holds => yields same (weaker back holds)

theorem run_acceptSymbol_of_eq
    {kind : Symbol} {head : Lexeme} (token : head.token = .symbol kind) (rest : List Lexeme) :
    (acceptSymbol kind).run (head :: rest) = .ok (true, rest) := by
  rw [acceptSymbol, run_accept_cons, isSymbol, token, beq_self_eq_true, if_pos rfl]

/-! ## Types in parentheses -/

/-- Tokens that spell a type and in which parentheses are paired. -/
structure Whole (tokens : List Token) (type : TypeExpr) : Prop extends Spelled tokens type where
  balanced : Balanced tokens

/-- The tokens of a type in parentheses. -/
def enclose (tokens : List Token) : List Token :=
  .symbol .openParen :: (tokens ++ [.symbol .closeParen])

theorem run_primary_of_openParen
    {head : Lexeme} (opens : head.token = .symbol .openParen)
    (type : TypeReader TypeExpr) (inner : Option Level) (tail : List Lexeme) :
    (primary type inner).run (head :: tail) =
      (if closesBeforeArrow 0 (head :: tail) then function inner
        else parenthesized type).run (head :: tail) := by
  rw [primary, run_nextTwo_bind, firstTwo, List.take_succ_cons, List.map_cons, opens]
  rfl

/-- The scan for a function passes over the tokens between parentheses. -/
theorem closesBeforeArrow_of_balanced
    {opening closing : Lexeme} {inside : List Lexeme}
    (opens : opening.token = .symbol .openParen)
    (closes : closing.token = .symbol .closeParen)
    (balanced : Paired inside [])
    (back : List Lexeme) :
    closesBeforeArrow 0 (opening :: (inside ++ closing :: back)) =
      ((back.head?.map (isSymbol .arrow)).getD false) := by
  have paired : Paired (inside ++ [closing]) [closing] := by
    intro opened after
    rw [List.append_assoc]
    exact balanced opened ([closing] ++ after)
  have scan := closesBeforeArrow_enclosed (beq_of_eq opens) (beq_of_eq closes) paired back
  rw [List.cons_append, List.append_assoc] at scan
  exact scan

theorem exists_of_map_eq_enclose
    {lexemes : List Lexeme} {tokens : List Token}
    (same : lexemes.map Lexeme.token = enclose tokens) :
    ∃ opening inside closing, lexemes = opening :: (inside ++ [closing]) ∧
      opening.token = .symbol .openParen ∧ inside.map Lexeme.token = tokens ∧
      closing.token = .symbol .closeParen := by
  obtain ⟨opening, _, rfl, opens, same⟩ := List.map_eq_cons_iff.mp same
  obtain ⟨inside, _, rfl, insideTokens, final⟩ := List.map_eq_append_iff.mp same
  obtain ⟨closing, _, rfl, closes, nothing⟩ := List.map_eq_cons_iff.mp final
  rw [List.map_eq_nil_iff.mp nothing]
  exact ⟨opening, inside, closing, rfl, opens, insideTokens, closes⟩

/-- What no arrow follows is no function. -/
theorem run_primary_of_balanced
    {opening closing : Lexeme} {inside back : List Lexeme}
    (opens : opening.token = .symbol .openParen)
    (closes : closing.token = .symbol .closeParen)
    (balanced : Paired inside [])
    (noArrow : Lacks .arrow back)
    (type : TypeReader TypeExpr) (inner : Option Level) :
    (primary type inner).run (opening :: (inside ++ closing :: back)) =
      (parenthesized type).run (opening :: (inside ++ closing :: back)) := by
  have noFunction : closesBeforeArrow 0 (opening :: (inside ++ closing :: back)) = false := by
    rw [closesBeforeArrow_of_balanced opens closes balanced]
    cases back with
    | nil =>
        rfl
    | cons head rest =>
        exact noArrow head rfl
  rw [run_primary_of_openParen opens, noFunction, if_neg Bool.false_ne_true]

theorem yields_parenthesized
    {tokens : List Token} {type : TypeExpr} (whole : Whole tokens type)
    {nesting : Nat} (bound : nesting ≤ greatestNesting) (inner : Option Level) :
    YieldsBefore (Lacks .arrow) (primary (level nesting).type inner) (enclose tokens) type := by
  intro lexemes back same noArrow
  obtain ⟨opening, inside, closing, rfl, opens, insideTokens, closes⟩ :=
    exists_of_map_eq_enclose same
  rw [List.cons_append, List.append_assoc, List.singleton_append,
    run_primary_of_balanced opens closes (whole.balanced inside insideTokens) noArrow]
  have follows : Follows (closing :: back) := follows_cons closes ⟨rfl, by decide⟩ back
  have read := whole.yields nesting bound insideTokens follows
  refine read.bind ?_
  rw [run_bind, run_expect_of_eq closes]
  exact Or.inr rfl

theorem yields_operand_enclose
    {tokens : List Token} {type : TypeExpr} (whole : Whole tokens type)
    {nesting : Nat} (bound : nesting ≤ greatestNesting) :
    YieldsBefore (Without [.arrow, .openBracket]) (level nesting).operand
      (enclose tokens) type := by
  rw [operand_level]
  apply yields_suffixed
  · intro back without
    exact without .openBracket (by decide)
  · apply (yields_parenthesized whole bound (innerLevel nesting)).mono
    intro back without
    exact without .arrow (by decide)

theorem yields_intersection_enclose
    {tokens : List Token} {type : TypeExpr} (whole : Whole tokens type)
    {nesting : Nat} (bound : nesting ≤ greatestNesting) :
    YieldsBefore (Without [.arrow, .openBracket, .ampersand])
      (intersection (level nesting).operand) (enclose tokens) type := by
  apply yields_joinedBy
  · intro back without
    exact without .ampersand (by decide)
  · exact nofun
  · apply (yields_operand_enclose whole bound).mono
    intro back without
    exact without.of_subset (by decide)

theorem yields_union_enclose
    {tokens : List Token} {type : TypeExpr} (whole : Whole tokens type)
    {nesting : Nat} (bound : nesting ≤ greatestNesting) :
    YieldsBefore (Without [.arrow, .openBracket, .ampersand, .pipe])
      (union (level nesting).operand) (enclose tokens) type := by
  apply yields_joinedBy
  · intro back without
    exact without .pipe (by decide)
  · exact nofun
  · apply (yields_intersection_enclose whole bound).mono
    intro back without
    exact without.of_subset (by decide)

theorem begins_openParen :
    ∀ kind, Token.symbol .openParen = .symbol kind →
      kind.beginsType ∧ kind ≠ .pipe ∧ kind ≠ .ampersand := by
  intro kind same
  cases same
  exact ⟨rfl, nofun, nofun⟩

theorem begins_enclose {tokens : List Token} (behind : List Token) :
    Begins (enclose tokens ++ behind) :=
  ⟨_, _, rfl, fun kind same => (begins_openParen kind same).1⟩

theorem spelled_enclose
    {tokens : List Token} {type : TypeExpr} (whole : Whole tokens type) :
    Spelled (enclose tokens) type := by
  apply spelled_of_operand begins_openParen
  intro nesting bound
  apply (yields_operand_enclose whole bound).mono
  intro back follows
  exact follows.without (by decide)

/-! ## Brackets behind a type -/

theorem yields_suffixed_access
    {base body : List Token} {type : TypeExpr} {index : Option TypeExpr}
    {reader : TypeReader TypeExpr} {inner : Option Level}
    (primaryYields : YieldsBefore (Meets .openBracket) (primary reader inner) base type)
    (bodyYields : YieldsBefore (fun _ => True) (accessBody reader) body index) :
    YieldsBefore (Lacks .openBracket) (suffixed reader inner)
      (base ++ .symbol .openBracket :: body) (access type index) := by
  intro lexemes back same lacks
  obtain ⟨front, _, rfl, frontTokens, same⟩ := List.map_eq_append_iff.mp same
  obtain ⟨opening, inside, rfl, opens, insideTokens⟩ := List.map_eq_cons_iff.mp same
  rw [List.append_assoc, List.cons_append]
  have items : Reaches ((separatedItems (isSymbol .openBracket) (accessBody reader)).run
      (opening :: (inside ++ back))) [index] back := by
    rw [run_separatedItems, run_bind, run_accept_cons, isSymbol, opens, beq_self_eq_true]
    refine (bodyYields insideTokens trivial).bind ?_
    exact (reaches_separatedItems_nil lacks _).bind (Or.inr rfl)
  have base := primaryYields frontTokens (meets_cons opens (inside ++ back))
  exact base.bind (items.bind (Or.inr rfl))

theorem yields_accessBody_array (reader : TypeReader TypeExpr) :
    YieldsBefore (fun _ => True) (accessBody reader) [.symbol .closeBracket] none := by
  intro lexemes back same _
  obtain ⟨closing, _, rfl, closes, nothing⟩ := List.map_eq_cons_iff.mp same
  rw [List.map_eq_nil_iff.mp nothing, List.singleton_append, accessBody, run_bind,
    run_acceptSymbol_of_eq closes]
  exact Or.inr rfl

theorem yields_accessBody_index
    {tokens : List Token} {type : TypeExpr} (spelled : Spelled tokens type)
    {nesting : Nat} (bound : nesting ≤ greatestNesting) :
    YieldsBefore (fun _ => True) (accessBody (level nesting).type)
      (tokens ++ [.symbol .closeBracket]) (some type) := by
  intro lexemes back same _
  obtain ⟨inside, _, rfl, insideTokens, final⟩ := List.map_eq_append_iff.mp same
  obtain ⟨closing, _, rfl, closes, nothing⟩ := List.map_eq_cons_iff.mp final
  rw [List.map_eq_nil_iff.mp nothing, List.append_assoc, List.singleton_append]
  have begins := spelled.begins
  rw [← insideTokens] at begins
  rw [accessBody, run_bind, acceptSymbol, run_accept_of_ne (begins.not_isSymbol rfl _)]
  have ended : Follows (closing :: back) := follows_cons closes ⟨rfl, by decide⟩ back
  have read := spelled.yields nesting bound insideTokens ended
  refine read.bind ?_
  rw [run_bind, run_expect_of_eq closes]
  exact Or.inr rfl

theorem spelled_array
    {tokens : List Token} {type : TypeExpr} (whole : Whole tokens type) :
    Spelled (enclose tokens ++ [.symbol .openBracket, .symbol .closeBracket]) (.array type) := by
  apply spelled_of_operand begins_openParen
  intro nesting bound
  rw [operand_level]
  have base : YieldsBefore (Meets .openBracket)
      (primary (level nesting).type (innerLevel nesting)) (enclose tokens) type :=
    (yields_parenthesized whole bound _).mono fun _ meets => meets.lacks (by decide)
  exact (yields_suffixed_access base (yields_accessBody_array _)).mono
    fun _ follows => follows.lacks rfl

/-- A name is a reference in front of a bracket, unless it is a word that makes types. -/
theorem yields_primary_name
    {word : String} (notOperator : TypeOperator.ofWord? word = none)
    (reader : TypeReader TypeExpr) (inner : Option Level) :
    YieldsBefore (Meets .openBracket) (primary reader inner) [.name word] (.named word) := by
  intro lexemes back same opens
  obtain ⟨head, _, rfl, token, nothing⟩ := List.map_eq_cons_iff.mp same
  rw [List.map_eq_nil_iff.mp nothing, List.singleton_append, run_primary_of_name token]
  · have noDot : Lacks .dot back := opens.lacks (by decide)
    have noArguments : Lacks .less back := opens.lacks (by decide)
    rw [reference, run_bind_ok (run_path token noDot), acceptSymbol,
      run_bind_ok (run_accept_of_ne noArguments)]
    exact Or.inr rfl
  · intro second next
    refine ⟨.openBracket, opens second next, ?_, ?_⟩
    · rw [operationOrReference, notOperator]
    · rintro (same | same)
      · cases same
      · cases same

theorem spelled_index
    {word : String} (notOperator : TypeOperator.ofWord? word = none)
    {tokens : List Token} {type : TypeExpr} (spelled : Spelled tokens type) :
    Spelled (.name word :: .symbol .openBracket :: (tokens ++ [.symbol .closeBracket]))
      (.indexed (.named word) type) := by
  have begins : ∀ kind, Token.name word = .symbol kind →
      kind.beginsType ∧ kind ≠ .pipe ∧ kind ≠ .ampersand := nofun
  apply spelled_of_operand begins
  intro nesting bound
  rw [operand_level]
  have base := yields_primary_name notOperator (level nesting).type (innerLevel nesting)
  exact (yields_suffixed_access base (yields_accessBody_index spelled bound)).mono
    fun _ follows => follows.lacks rfl

/-! ## Rest elements -/

theorem spelledElement_rest
    {tokens : List Token} {type : TypeExpr} (spelled : Spelled tokens type) :
    SpelledElement (.symbol .ellipsis :: tokens) (.rest type) := by
  intro nesting bound
  refine ⟨⟨_, tokens, rfl, nofun⟩, ?_⟩
  intro lexemes back same follows
  obtain ⟨dots, inside, rfl, spread, insideTokens⟩ := List.map_eq_cons_iff.mp same
  rw [List.cons_append, tupleElement, run_bind, run_acceptSymbol_of_eq spread]
  refine (spelled.yields nesting bound insideTokens follows).bind ?_
  rw [run_bind, acceptSymbol, run_accept_of_ne (follows.not_isSymbol (Or.inr rfl))]
  exact Or.inr rfl

/-! ## Unions, intersections and conditionals -/

theorem yields_joinedBy_pair
    {before : List Lexeme → Prop} {kind : Symbol} {part : TypeReader TypeExpr}
    {head : Token} {rest second : List Token} {left right : TypeExpr}
    (lacks : ∀ back, before back → Lacks kind back)
    (different : head ≠ .symbol kind)
    (leftYields : YieldsBefore (Meets kind) part (head :: rest) left)
    (rightYields : YieldsBefore before part second right)
    (join : List TypeExpr → TypeExpr) :
    YieldsBefore before (joinedBy kind join part) ((head :: rest) ++ .symbol kind :: second)
      (join [left, right]) := by
  intro lexemes back same holds
  obtain ⟨front, _, rfl, frontTokens, same⟩ := List.map_eq_append_iff.mp same
  obtain ⟨sign, behind, rfl, signs, behindTokens⟩ := List.map_eq_cons_iff.mp same
  rw [List.append_assoc, List.cons_append]
  have absent : Lacks kind (front ++ sign :: (behind ++ back)) := by
    obtain ⟨first, others, rfl, token, _⟩ := List.map_eq_cons_iff.mp frontTokens
    intro next isFirst
    cases isFirst
    rw [isSymbol, token, beq_eq_false_iff_ne]
    exact different
  have others : Reaches ((separatedItems (isSymbol kind) part).run (sign :: (behind ++ back)))
      [right] back := by
    rw [run_separatedItems, run_bind, run_accept_cons, isSymbol, signs, beq_self_eq_true]
    refine (rightYields behindTokens holds).bind ?_
    exact (reaches_separatedItems_nil (lacks back holds) part).bind (Or.inr rfl)
  have parts : Reaches ((separated (isSymbol kind) part).run (front ++ sign :: (behind ++ back)))
      [left, right] back :=
    (leftYields frontTokens (meets_cons signs _)).bind (others.bind (Or.inr rfl))
  rw [joinedBy, run_bind, acceptSymbol, run_accept_of_ne absent]
  exact parts.bind (Or.inr rfl)

theorem spelled_intersection
    {first second : List Token} {left right : TypeExpr}
    (leftWhole : Whole first left) (rightWhole : Whole second right) :
    Spelled (enclose first ++ .symbol .ampersand :: enclose second)
      (.intersection [left, right]) := by
  apply spelled_of_complete (begins_enclose _)
  intro nesting bound
  have leftYields : YieldsBefore (Meets .ampersand) (level nesting).operand (enclose first) left :=
    (yields_operand_enclose leftWhole bound).mono fun _ meets => meets.without (by decide)
  have rightYields : Yields (level nesting).operand (enclose second) right :=
    (yields_operand_enclose rightWhole bound).mono fun _ follows => follows.without (by decide)
  have intersected : Yields (intersection (level nesting).operand) _ _ :=
    yields_joinedBy_pair (fun _ follows => follows.lacks rfl) (by decide) leftYields rightYields
      .intersection
  have united : Yields (union (level nesting).operand) _ _ :=
    yields_joinedBy (fun _ follows => follows.lacks rfl) (by decide) intersected .union
  exact yields_complete united

theorem spelled_union
    {first second : List Token} {left right : TypeExpr}
    (leftWhole : Whole first left) (rightWhole : Whole second right) :
    Spelled (enclose first ++ .symbol .pipe :: enclose second) (.union [left, right]) := by
  apply spelled_of_complete (begins_enclose _)
  intro nesting bound
  have leftYields : YieldsBefore (Meets .pipe) (intersection (level nesting).operand)
      (enclose first) left :=
    (yields_intersection_enclose leftWhole bound).mono fun _ meets => meets.without (by decide)
  have rightYields : Yields (intersection (level nesting).operand) (enclose second) right :=
    (yields_intersection_enclose rightWhole bound).mono fun _ follows => follows.without (by decide)
  have united : Yields (union (level nesting).operand) _ _ :=
    yields_joinedBy_pair (fun _ follows => follows.lacks rfl) (by decide) leftYields rightYields
      .union
  exact yields_complete united

theorem spelled_conditional
    {check bound first second : List Token} {checkType boundType whenTrue whenFalse : TypeExpr}
    (checkWhole : Whole check checkType) (boundWhole : Whole bound boundType)
    (firstSpelled : Spelled first whenTrue) (secondSpelled : Spelled second whenFalse) :
    Spelled (enclose check ++ .name "extends" ::
        (enclose bound ++ .symbol .question :: (first ++ .symbol .colon :: second)))
      (.conditional checkType boundType whenTrue whenFalse) := by
  apply spelled_of_complete (begins_enclose _)
  intro nesting room lexemes back same follows
  obtain ⟨checked, _, rfl, checkTokens, same⟩ := List.map_eq_append_iff.mp same
  obtain ⟨word, _, rfl, extending, same⟩ := List.map_eq_cons_iff.mp same
  obtain ⟨bounded, _, rfl, boundTokens, same⟩ := List.map_eq_append_iff.mp same
  obtain ⟨question, _, rfl, questions, same⟩ := List.map_eq_cons_iff.mp same
  obtain ⟨front, _, rfl, firstTokens, same⟩ := List.map_eq_append_iff.mp same
  obtain ⟨colon, behind, rfl, separates, secondTokens⟩ := List.map_eq_cons_iff.mp same
  simp only [List.append_assoc, List.cons_append]
  have noSymbol : ∀ rest, Without [.arrow, .openBracket, .ampersand, .pipe] (word :: rest) :=
    without_cons extending nofun
  refine (yields_union_enclose checkWhole room checkTokens (noSymbol _)).bind ?_
  have extended : isWord "extends" word := by
    rw [isWord, extending, beq_self_eq_true]
  rw [run_bind, acceptWord, run_accept_cons, if_pos extended]
  have marked : ∀ rest, Meets .question (question :: rest) := meets_cons questions
  refine (yields_union_enclose boundWhole room boundTokens ((marked _).without (by decide))).bind ?_
  rw [run_bind, run_expect_of_eq questions]
  have ended : Follows (colon :: (behind ++ back)) := follows_cons separates ⟨rfl, by decide⟩ _
  refine (firstSpelled.yields nesting room firstTokens ended).bind ?_
  rw [run_bind, run_expect_of_eq separates]
  exact (secondSpelled.yields nesting room secondTokens follows).bind (Or.inr rfl)

/-! ## Functions -/

theorem run_typeParameters_nil
    {input : List Lexeme} (meets : Meets .openParen input) (type : TypeReader TypeExpr) :
    (typeParameters type).run input = .ok ([], input) := by
  have noList : Lacks .less input := meets.lacks (by decide)
  rw [typeParameters, run_bind, acceptSymbol, run_accept_of_ne noList]
  rfl

theorem yields_parameter
    {tokens : List Token} {type : TypeExpr} (spelled : Spelled tokens type)
    {nesting : Nat} (bound : nesting ≤ greatestNesting) (word : String) :
    Yields (parameter (level nesting).type) (.name word :: .symbol .colon :: tokens)
      (.mk word (some type)) := by
  intro lexemes back same follows
  obtain ⟨head, _, rfl, named, same⟩ := List.map_eq_cons_iff.mp same
  obtain ⟨colon, inside, rfl, separates, insideTokens⟩ := List.map_eq_cons_iff.mp same
  have noDots : Lacks .ellipsis (head :: colon :: (inside ++ back)) :=
    without_cons named nofun _ .ellipsis (List.mem_singleton_self _)
  have noMark : Lacks .question (colon :: (inside ++ back)) :=
    (meets_cons separates _).lacks (by decide)
  rw [List.cons_append, List.cons_append, parameter, acceptSymbol,
    run_bind_ok (run_accept_of_ne noDots), run_bind_ok (run_name_of_eq named _ _), acceptSymbol,
    run_bind_ok (run_accept_of_ne noMark), run_bind, optionalType,
    run_bind_ok (run_acceptSymbol_of_eq separates _)]
  have read := spelled.yields nesting bound insideTokens follows
  exact Reaches.bind (read.bind (Or.inr rfl)) (Or.inr rfl)

theorem yields_parameters
    {nesting : Nat} {tokens : List Token} {value : Parameter}
    (yields : Yields (parameter (level nesting).type) tokens value)
    (enters : Enters .closeParen tokens) :
    YieldsBefore (fun _ => True) (parameters (level nesting).type) (enclose tokens) [value] := by
  intro lexemes back same _
  obtain ⟨opening, inside, closing, rfl, opens, insideTokens, closes⟩ :=
    exists_of_map_eq_enclose same
  have comma : Delimits .comma .closeParen (isSymbol .comma) :=
    delimits_symbol nofun ⟨rfl, nofun⟩ ⟨rfl, nofun⟩
  have items := reaches_untilClosed comma (.last tokens) (.cons ⟨enters, yields⟩ .nil) insideTokens
    closes back
  rw [List.cons_append, List.append_assoc, List.singleton_append, parameters, run_bind,
    run_expect_of_eq opens]
  refine items.bind ?_
  rw [run_bind, run_expect_of_eq closes]
  exact Or.inr rfl

/-- A name alone is no type predicate. -/
theorem yields_result_name
    {nesting : Nat} (bound : nesting ≤ greatestNesting) (word : String) :
    Yields (result (level nesting).type) [.name word] (.named word) := by
  intro lexemes back same follows
  have read := (spelled_named word).yields nesting bound same follows
  obtain ⟨head, _, rfl, named, nothing⟩ := List.map_eq_cons_iff.mp same
  rw [List.map_eq_nil_iff.mp nothing, List.singleton_append] at read ⊢
  rw [result, run_nextTwo_bind]
  cases back with
  | nil =>
      have tokens : firstTwo [head] = [.name word] := congrArg (fun token => [token]) named
      rw [tokens]
      split
      · next impossible => cases impossible
      · next impossible => cases impossible
      · exact read
  | cons second rest =>
      obtain ⟨kind, symbol, _⟩ := follows second rfl
      have tokens : firstTwo (head :: second :: rest) = [.name word, .symbol kind] := by
        rw [firstTwo, List.take_succ_cons, List.take_succ_cons, List.take_zero, List.map_cons,
          List.map_singleton, named, symbol]
      rw [tokens]
      split
      · next impossible => cases impossible
      · next impossible => cases impossible
      · exact read

theorem spelled_function
    {tokens : List Token} {type : TypeExpr} (whole : Whole tokens type) (word resultWord : String) :
    Spelled (enclose (.name word :: .symbol .colon :: tokens) ++
        [.symbol .arrow, .name resultWord])
      (.function [] [.mk word (some type)] (.named resultWord)) := by
  apply spelled_of_primary begins_openParen
  intro nesting bound lexemes back spelled follows
  have same : lexemes.map Lexeme.token =
      enclose (.name word :: .symbol .colon :: tokens) ++ [.symbol .arrow, .name resultWord] :=
    spelled
  obtain ⟨front, _, rfl, frontTokens, same⟩ := List.map_eq_append_iff.mp same
  obtain ⟨arrow, final, rfl, points, finalTokens⟩ := List.map_eq_cons_iff.mp same
  have selected : (primary (level nesting).type (innerLevel nesting)).run
      (front ++ arrow :: (final ++ back)) =
        (function (innerLevel nesting)).run (front ++ arrow :: (final ++ back)) := by
    obtain ⟨opening, inside, closing, rfl, opens, insideTokens, closes⟩ :=
      exists_of_map_eq_enclose frontTokens
    have balanced : Paired inside [] := by
      obtain ⟨head, _, rfl, named, same⟩ := List.map_eq_cons_iff.mp insideTokens
      obtain ⟨colon, typed, rfl, separates, typeTokens⟩ := List.map_eq_cons_iff.mp same
      have headPlain : head.token.isPlain := by rw [named]; rfl
      have colonPlain : colon.token.isPlain := by rw [separates]; rfl
      exact ((paired_plain headPlain _).trans (paired_plain colonPlain _)).trans
        (whole.balanced typed typeTokens)
    have scan := closesBeforeArrow_of_balanced opens closes balanced (arrow :: (final ++ back))
    rw [List.head?_cons, Option.map_some, isSymbol, points, beq_self_eq_true] at scan
    rw [List.cons_append, List.append_assoc, List.singleton_append,
      run_primary_of_openParen opens, scan]
    rfl
  rw [List.append_assoc, List.cons_append, selected, function]
  apply reaches_within
  intro less same
  have lower : less ≤ greatestNesting := by omega
  have opened : Meets .openParen (front ++ arrow :: (final ++ back)) := by
    obtain ⟨opening, _, rfl, opens, _⟩ := List.map_eq_cons_iff.mp frontTokens
    exact meets_cons opens _
  rw [run_bind, run_typeParameters_nil opened]
  have enters : Enters .closeParen (.name word :: .symbol .colon :: tokens) := by
    refine ⟨_, _, rfl, ?_⟩
    intro same
    cases same
  have values : Reaches ((parameters (level less).type).run (front ++ arrow :: (final ++ back)))
      [.mk word (some type)] (arrow :: (final ++ back)) :=
    yields_parameters (yields_parameter whole.toSpelled lower word) enters frontTokens trivial
  refine values.bind ?_
  rw [run_bind, run_expect_of_eq points]
  exact (yields_result_name lower resultWord finalTokens follows).bind (Or.inr rfl)

end TypeReader

/-! ## Texts in contexts -/

/-- Whether a text is cut into tokens that spell a type, in which parentheses are paired, and which
do not become longer in front of a symbol. -/
def WritesWhole (text : String) (type : TypeExpr) : Prop :=
  ∃ tokens, (∀ rest, Halts rest → Cut (text.toList ++ rest) tokens rest) ∧
    TypeReader.Whole tokens type

theorem writesWhole_of_parse
    {text : String} {type : TypeExpr} (parsed : TypeExpr.parse text = .ok type) :
    WritesWhole text type := by
  obtain ⟨lexemes, ran, spelled⟩ := exists_lexemes_of_parse parsed
  have derives := TypeReader.derives_of_ofLexemes spelled
  refine ⟨lexemes.map Lexeme.token, ?_, ?_⟩
  · intro rest halts
    exact (Cut.of_allFrom ran).append_right_of_halts halts fun last =>
      absurd last derives.endsPlain
  · exact ⟨TypeReader.spelled_of_parse spelled, TypeReader.balanced_of_parse spelled⟩

/-- A type in front of a text with which none of its tokens goes on. -/
theorem Closed.append_halted
    {front text back : String} {before tokens behind : List Token}
    (closed : Closed front before)
    (cut : ∀ rest, Halts rest → Cut (text.toList ++ rest) tokens rest)
    (last : Closed back behind)
    (halts : ∀ rest, Halts (back.toList ++ rest)) :
    Closed (front ++ text ++ back) (before ++ tokens ++ behind) := by
  intro rest
  rw [String.toList_append, String.toList_append, List.append_assoc, List.append_assoc]
  rw [List.append_assoc]
  exact (closed _).append ((cut _ (halts rest)).append (last rest))

/-- A type in front of the bracket that closes type arguments. -/
theorem Closed.append_greater
    {front text : String} {before tokens : List Token}
    (closed : Closed front before)
    (cut : ∀ rest, Halts rest → Cut (text.toList ++ rest) tokens rest) :
    Closed (front ++ text ++ ">") (before ++ tokens ++ [.symbol .greater]) := by
  refine closed.append_halted cut (closed_marks rfl) fun rest => ?_
  rintro c ⟨⟩
  exact ⟨rfl, nofun⟩

theorem Spells.writes
    {text : String} {tokens others : List Token} {type : TypeExpr}
    (spells : Spells text tokens)
    (spelled : TypeReader.Spelled others type)
    (same : others = tokens) :
    Writes text type :=
  ⟨tokens, spells, same ▸ spelled⟩

theorem closed_between_extends :
    Closed ") extends (" [.symbol .closeParen, .name "extends", .symbol .openParen] := by
  have front : Closed ") " [.symbol .closeParen] := closed_marks rfl
  have word : Spells "extends" [.name "extends"] := spells_name rfl
  have back : Closed " (" [.symbol .openParen] := closed_marks rfl
  exact (front.append_spells word).append_closed back rfl

theorem closed_before_arrow : Closed ") => " [.symbol .closeParen, .symbol .arrow] := by
  have front : Closed ") " [.symbol .closeParen] := closed_marks rfl
  have blank : Closed " " [] := closed_blanks rfl
  exact (front.append closed_arrow).append blank

/-- A place in a larger type text, or two. -/
inductive TypeContext where
  | parenthesized
  | tuple
  | spread
  | argument
  | index
  | array
  | property
  | parameter
  | union
  | intersection
  | arguments
  | conditional

namespace TypeContext

/-- The larger text, with a name where it has one. A context of one place leaves the second text
out. -/
def text (name first second : String) : TypeContext → String
  | parenthesized => "(" ++ first ++ ")"
  | tuple => "[" ++ first ++ "]"
  | spread => "[..." ++ first ++ "]"
  | argument => name ++ "<" ++ first ++ ">"
  | index => name ++ "[" ++ first ++ "]"
  | array => "(" ++ first ++ ")[]"
  | property => "\x7b " ++ name ++ ": " ++ first ++ " \x7d"
  | parameter => "(" ++ name ++ ": " ++ first ++ ") => " ++ name
  | union => "(" ++ first ++ ") | (" ++ second ++ ")"
  | intersection => "(" ++ first ++ ") & (" ++ second ++ ")"
  | arguments => name ++ "<" ++ first ++ ", " ++ second ++ ">"
  | conditional => "(" ++ first ++ ") extends (" ++ second ++ ") ? " ++ first ++ " : " ++ second

/-- What the larger text stands for. -/
def type (name : String) (first second : TypeExpr) : TypeContext → TypeExpr
  | parenthesized => first
  | tuple => .tuple [first]
  | spread => .tuple [.rest first]
  | argument => .reference [name] [first]
  | index => .indexed (.reference [name] []) first
  | array => .array first
  | property => .object [.property name first]
  | parameter => .function [] [.mk name (some first)] (.reference [name] [])
  | union => .union [first, second]
  | intersection => .intersection [first, second]
  | arguments => .reference [name] [first, second]
  | conditional => .conditional first second first second

end TypeContext

open TypeReader in
theorem writes_context
    {name first second : String} {left right : TypeExpr}
    (named : Scan.isName name)
    (plain : name ≠ "new" ∧ TypeOperator.ofWord? name = none)
    (leftWrites : WritesWhole first left)
    (rightWrites : WritesWhole second right)
    (context : TypeContext) :
    Writes (context.text name first second) (context.type name left right) := by
  obtain ⟨tokens, cut, whole⟩ := leftWrites
  obtain ⟨others, otherCut, otherWhole⟩ := rightWrites
  have spells : Spells first tokens := fun rest stops => cut rest stops.halts
  have otherSpells : Spells second others := fun rest stops => otherCut rest stops.halts
  have nameSpells := spells_name named
  have openParen : Closed "(" [.symbol .openParen] := closed_marks rfl
  have closeParen : Closed ")" [.symbol .closeParen] := closed_marks rfl
  have openBracket : Closed "[" [.symbol .openBracket] := closed_marks rfl
  have closeBracket : Closed "]" [.symbol .closeBracket] := closed_marks rfl
  have less : Closed "<" [.symbol .less] := closed_marks rfl
  have colon : Closed ": " [.symbol .colon] := closed_marks rfl
  cases context with
  | parenthesized =>
      have closed := (openParen.append_spells spells).append_closed closeParen rfl
      exact closed.spells.writes (spelled_enclose whole) rfl
  | tuple =>
      have closed := (openBracket.append_spells spells).append_closed closeBracket rfl
      have listed : Spelled _ (.tuple [left]) :=
        spelled_tuple (.last tokens) (.cons whole.toSpelled .nil)
      exact closed.spells.writes listed rfl
  | spread =>
      have dots := openBracket.append closed_ellipsis
      have closed := (dots.append_spells spells).append_closed closeBracket rfl
      have listed : Spelled _ (.tuple [.rest left]) :=
        spelled_elements (.last _) (.cons (spelledElement_rest whole.toSpelled) .nil)
      exact closed.spells.writes listed rfl
  | argument =>
      have front := nameSpells.append_closed less rfl
      have closed := front.append_greater cut
      have applied : Spelled _ (.reference [name] [left]) :=
        spelled_reference plain.1 (.last tokens) (.cons whole.toSpelled .nil) (List.cons_ne_nil _ _)
      exact closed.spells.writes applied rfl
  | index =>
      have front := nameSpells.append_closed openBracket rfl
      have closed := (front.append_spells spells).append_closed closeBracket rfl
      exact closed.spells.writes (spelled_index plain.2 whole.toSpelled) rfl
  | array =>
      have back : Closed ")[]" [.symbol .closeParen, .symbol .openBracket, .symbol .closeBracket] :=
        closed_marks rfl
      have closed := (openParen.append_spells spells).append_closed back rfl
      exact closed.spells.writes (spelled_array whole) (by simp [enclose])
  | property =>
      have openBrace : Closed "\x7b " [.symbol .openBrace] := closed_marks rfl
      have closeBrace : Closed " \x7d" [.symbol .closeBrace] := closed_marks rfl
      have front := (openBrace.append_spells nameSpells).append_closed colon rfl
      have closed := (front.append_spells spells).append_closed closeBrace rfl
      have member : SpelledMember _ (.property name left) :=
        spelledMember_property (Or.inl rfl) whole.toSpelled
      have listed : Spelled _ (.object [.property name left]) :=
        spelled_object (.last _) (.cons member .nil)
      exact closed.spells.writes listed rfl
  | parameter =>
      have front := (openParen.append_spells nameSpells).append_closed colon rfl
      have closed := (front.append_spells spells).append_closed closed_before_arrow rfl
      have spelled := spelled_function whole name name
      exact (closed.append_spells nameSpells).writes spelled (by simp [enclose])
  | union =>
      have middle : Closed ") | (" [.symbol .closeParen, .symbol .pipe, .symbol .openParen] :=
        closed_marks rfl
      have front := (openParen.append_spells spells).append_closed middle rfl
      have closed := (front.append_spells otherSpells).append_closed closeParen rfl
      exact closed.spells.writes (spelled_union whole otherWhole) (by simp [enclose])
  | intersection =>
      have middle : Closed ") & (" [.symbol .closeParen, .symbol .ampersand, .symbol .openParen] :=
        closed_marks rfl
      have front := (openParen.append_spells spells).append_closed middle rfl
      have closed := (front.append_spells otherSpells).append_closed closeParen rfl
      exact closed.spells.writes (spelled_intersection whole otherWhole) (by simp [enclose])
  | arguments =>
      have comma : Closed ", " [.symbol .comma] := closed_marks rfl
      have front := nameSpells.append_closed less rfl
      have listed := (front.append_spells spells).append_closed comma rfl
      have closed := listed.append_greater otherCut
      have applied : Spelled _ (.reference [name] [left, right]) :=
        spelled_reference plain.1 (.more (.last others))
          (.cons whole.toSpelled (.cons otherWhole.toSpelled .nil)) (List.cons_ne_nil _ _)
      exact closed.spells.writes applied (by simp)
  | conditional =>
      have question : Closed ") ? " [.symbol .closeParen, .symbol .question] := closed_marks rfl
      have otherwise : Closed " : " [.symbol .colon] := closed_marks rfl
      have check := (openParen.append_spells spells).append_closed closed_between_extends rfl
      have bound := (check.append_spells otherSpells).append_closed question rfl
      have chosen := (bound.append_spells spells).append_closed otherwise rfl
      have spelled := spelled_conditional whole otherWhole whole.toSpelled otherWhole.toSpelled
      exact (chosen.append_spells otherSpells).writes spelled (by simp [enclose])

namespace TypeExpr

/-- A text that is a type expression keeps its meaning in each context, and the context gets the
meaning that its form has, unless the whole is nested too deeply. -/
theorem parse_in_context
    {name first second : String} {left right : TypeExpr}
    (named : Scan.isName name)
    (plain : name ∉ ["infer", "keyof", "typeof", "readonly", "unique", "new"])
    (leftParsed : parse first = .ok left)
    (rightParsed : parse second = .ok right)
    (context : TypeContext) :
    parse (context.text name first second) = .error .tooDeep ∨
      parse (context.text name first second) = .ok (context.type name left right) := by
  have notOperator : TypeOperator.ofWord? name = none := by
    rw [TypeOperator.ofWord?, List.find?_eq_none]
    intro operator _ same
    rw [← eq_of_beq same] at plain
    cases operator <;> exact plain (by decide)
  have notNew : name ≠ "new" := by
    intro same
    rw [same] at plain
    exact plain (by decide)
  have leftWrites := writesWhole_of_parse leftParsed
  have rightWrites := writesWhole_of_parse rightParsed
  exact parse_of_writes
    (writes_context named ⟨notNew, notOperator⟩ leftWrites rightWrites context)

/-- Words that would begin an operation, were another name behind them. -/
theorem parse_in_context_words :
    parse "(a: A) => keyof" = .ok (.function [] [.mk "a" (some (.named "A"))] (.named "keyof")) ∧
      parse "infer" = .ok (.named "infer") ∧
      (parse "k<(a: A) => keyof, infer>" = .error .tooDeep ∨
        parse "k<(a: A) => keyof, infer>" = .ok (.reference ["k"]
          [.function [] [.mk "a" (some (.named "A"))] (.named "keyof"), .named "infer"])) := by
  have named : Scan.isName "k" := rfl
  have plain : "k" ∉ ["infer", "keyof", "typeof", "readonly", "unique", "new"] := by decide
  have left : parse "(a: A) => keyof" =
      .ok (.function [] [.mk "a" (some (.named "A"))] (.named "keyof")) := by
    with_unfolding_all rfl
  have right : parse "infer" = .ok (.named "infer") := by
    with_unfolding_all rfl
  exact ⟨left, right, parse_in_context named plain left right .arguments⟩

end TypeExpr

end TypeGraph
