import TypeGraph.Proofs.TypeExpr.Contexts
import TypeGraph.Proofs.TypeExpr.Exhaustion

/-!
# Types in brackets

A name inside of any brackets is read if the levels that the brackets open are fewer than those
allowed, and is nested too deeply if they are not. A bracket opens as many levels as it counts among
the openers, which for all but parentheses is two: one for the bracket and one for the type in it.
-/

namespace TypeGraph

/-! ## Brackets around a type -/

/-- Brackets of one kind, with the name that goes with them. -/
inductive Enclosure where
  | parentheses
  | arguments
  | tuple
  | property
deriving DecidableEq, Repr

namespace Enclosure

def opening : Enclosure → String
  | parentheses => "("
  | arguments => "X<"
  | tuple => "["
  | property => "\x7bX:"

def closing : Enclosure → String
  | parentheses => ")"
  | arguments => ">"
  | tuple => "]"
  | property => "\x7d"

/-- The tokens in front of the type inside. -/
def front : Enclosure → List Token
  | parentheses => [.symbol .openParen]
  | arguments => [.name "X", .symbol .less]
  | tuple => [.symbol .openBracket]
  | property => [.symbol .openBrace, .name "X", .symbol .colon]

def closer : Enclosure → Symbol
  | parentheses => .closeParen
  | arguments => .greater
  | tuple => .closeBracket
  | property => .closeBrace

def tokens (inside : List Token) (enclosure : Enclosure) : List Token :=
  enclosure.front ++ (inside ++ [.symbol enclosure.closer])

def type (inside : TypeExpr) : Enclosure → TypeExpr
  | parentheses => inside
  | arguments => .reference ["X"] [inside]
  | tuple => .tuple [inside]
  | property => .object [.property "X" inside]

/-- The levels that the brackets and the type inside of them open. -/
def levels : Enclosure → Nat
  | parentheses => 1
  | arguments | tuple | property => 2

theorem closed_opening (enclosure : Enclosure) : Closed enclosure.opening enclosure.front := by
  have name : Spells "X" [.name "X"] := spells_name rfl
  cases enclosure with
  | parentheses | tuple =>
      exact closed_marks rfl
  | arguments =>
      have less : Closed "<" [.symbol .less] := closed_marks rfl
      exact name.append_closed less rfl
  | property =>
      have brace : Closed "\x7b" [.symbol .openBrace] := closed_marks rfl
      have colon : Closed ":" [.symbol .colon] := closed_marks rfl
      exact (brace.append_spells name).append_closed colon rfl

theorem closed_closing (enclosure : Enclosure) :
    Closed enclosure.closing [.symbol enclosure.closer] := by
  cases enclosure <;> exact closed_marks rfl

theorem halts_closing (enclosure : Enclosure) (rest : List Char) :
    Halts (enclosure.closing.toList ++ rest) := by
  cases enclosure <;> (rintro c ⟨⟩; exact ⟨rfl, nofun⟩)

theorem afterSymbol_closer (enclosure : Enclosure) (openers : Openers) :
    (openers.behind enclosure.front).afterSymbol enclosure.closer = openers := by
  cases enclosure <;> rfl

theorem levels_behind_front (enclosure : Enclosure) (openers : Openers) :
    (openers.behind enclosure.front).levels = openers.levels + enclosure.levels := by
  cases enclosure with
  | parentheses | arguments | tuple =>
      exact Nat.add_comm _ _
  | property =>
      change 1 + (1 + openers.levels) = openers.levels + 2
      omega

theorem peak_front (enclosure : Enclosure) (openers : Openers) :
    openers.peak enclosure.front = openers.levels + enclosure.levels := by
  rw [← levels_behind_front]
  cases enclosure with
  | parentheses | tuple =>
      exact Nat.max_eq_right (Nat.le_add_left _ _)
  | arguments =>
      change max openers.levels (max openers.levels (2 + openers.levels)) = 2 + openers.levels
      omega
  | property =>
      change max openers.levels (max (1 + openers.levels) (max (1 + openers.levels)
        (1 + (1 + openers.levels)))) = 1 + (1 + openers.levels)
      omega

end Enclosure

/-- Whether tokens close what they open, and open some levels more than there were at the most. -/
def Rises (count : Nat) (tokens : List Token) : Prop :=
  ∀ openers : Openers, openers.behind tokens = openers ∧ openers.peak tokens = openers.levels + count

theorem Rises.enclosed
    {count : Nat} {inside : List Token} (rises : Rises count inside) (enclosure : Enclosure) :
    Rises (enclosure.levels + count) (enclosure.tokens inside) := by
  intro openers
  obtain ⟨closed, peak⟩ := rises (openers.behind enclosure.front)
  have around : (openers.behind enclosure.front).behind [.symbol enclosure.closer] = openers :=
    enclosure.afterSymbol_closer openers
  have level := enclosure.levels_behind_front openers
  have last : (openers.behind enclosure.front).peak [.symbol enclosure.closer] =
      max (openers.behind enclosure.front).levels openers.levels := by
    rw [Openers.peak, Openers.peak]
    exact congrArg (fun behind : Openers => max _ behind.levels) around
  constructor
  · rw [Enclosure.tokens, Openers.behind_append, Openers.behind_append, closed, around]
  · rw [Enclosure.tokens, Openers.peak_append, Openers.peak_append, closed, peak, last,
      enclosure.peak_front, level]
    omega

/-! ## What brackets spell -/

namespace TypeReader

open Reader

variable {α : Type}

theorem Balanced.append
    {first second : List Token} (before : Balanced first) (behind : Balanced second) :
    Balanced (first ++ second) := by
  intro lexemes same opened after
  obtain ⟨front, back, rfl, frontTokens, backTokens⟩ := List.map_eq_append_iff.mp same
  rw [List.append_assoc, before front frontTokens opened (back ++ after)]
  exact behind back backTokens opened after

theorem balanced_plain {tokens : List Token} (plain : tokens.all Token.isPlain) :
    Balanced tokens := by
  intro lexemes same
  induction lexemes generalizing tokens with
  | nil =>
      exact .refl []
  | cons head rest inner =>
      rw [← same, List.map_cons, List.all_cons, Bool.and_eq_true] at plain
      exact (paired_plain plain.1 rest).trans (inner plain.2 rfl)

theorem Balanced.enclose {tokens : List Token} (balanced : Balanced tokens) :
    Balanced (enclose tokens) := by
  intro lexemes same
  obtain ⟨opening, inside, closing, rfl, opens, insideTokens, closes⟩ :=
    exists_of_map_eq_enclose same
  refine Paired.enclosed (beq_of_eq opens) (beq_of_eq closes) fun opened after => ?_
  rw [List.append_assoc]
  exact balanced inside insideTokens opened ([closing] ++ after)

theorem Balanced.enclosed
    {inside : List Token} (balanced : Balanced inside) (enclosure : Enclosure) :
    Balanced (enclosure.tokens inside) := by
  cases enclosure with
  | parentheses =>
      exact balanced.enclose
  | arguments | tuple | property =>
      exact (balanced_plain rfl).append (balanced.append (balanced_plain rfl))

theorem Spelled.enclosed
    {inside : List Token} {type : TypeExpr} (spelled : Spelled inside type)
    (balanced : Balanced inside) (enclosure : Enclosure) :
    Spelled (enclosure.tokens inside) (enclosure.type type) := by
  cases enclosure with
  | parentheses =>
      exact spelled_enclose ⟨spelled, balanced⟩
  | arguments =>
      exact spelled_reference (by decide) (.last inside) (.cons spelled .nil)
        (List.cons_ne_nil _ _)
  | tuple =>
      exact spelled_tuple (.last inside) (.cons spelled .nil)
  | property =>
      have member : SpelledMember _ (.property "X" type) :=
        spelledMember_property (Or.inl rfl) spelled
      exact spelled_object (.last _) (.cons member .nil)

/-! ## Where the levels are exhausted -/

/-- Whether a reader runs out of levels on some tokens that no arrow follows. -/
def Exhausts (reader : TypeReader α) (tokens : List Token) : Prop :=
  ∀ ⦃lexemes back⦄, lexemes.map Lexeme.token = tokens → Lacks .arrow back →
    reader.run (lexemes ++ back) = .error .tooDeep

theorem exhausts_type
    {nesting : Nat} {head : Token} {rest : List Token}
    (begins : head ≠ .symbol .pipe ∧ head ≠ .symbol .ampersand)
    (deep : Exhausts (primary (level nesting).type (innerLevel nesting)) (head :: rest)) :
    Exhausts (level (nesting + 1)).type (head :: rest) := by
  intro lexemes back same noArrow
  have failed := deep same noArrow
  obtain ⟨first, others, rfl, rfl, -⟩ := List.map_eq_cons_iff.mp same
  refine run_type_of_operand begins ?_ nofun
  rw [operand_level]
  exact run_bind_error failed _

theorem run_within_of_tooDeep
    {nesting : Nat} {read : Level → TypeReader α} {input : List Lexeme}
    (deep : ∀ less, nesting = less + 1 → (read (level less)).run input = .error .tooDeep) :
    (within (innerLevel nesting) read).run input = .error .tooDeep := by
  cases nesting with
  | zero =>
      rfl
  | succ less =>
      exact deep less rfl

theorem Exhausts.parenthesized
    {reader : TypeReader TypeExpr} {inside : List Token} (deep : Exhausts reader inside)
    (balanced : Balanced inside) (inner : Option Level) :
    Exhausts (primary reader inner) (enclose inside) := by
  intro lexemes back same noArrow
  obtain ⟨opening, middle, closing, rfl, opens, insideTokens, closes⟩ :=
    exists_of_map_eq_enclose same
  rw [List.cons_append, List.append_assoc, List.singleton_append,
    run_primary_of_balanced opens closes (balanced middle insideTokens) noArrow]
  have closed : Lacks .arrow (closing :: back) := (meets_cons closes back).lacks (by decide)
  exact run_bind_error (deep insideTokens closed) _

theorem exhausts_reference
    {nesting : Nat} {word : String} {inside : List Token} (notNew : word ≠ "new")
    (deep : ∀ less, nesting = less + 1 → Exhausts (level less).type inside)
    (reader : TypeReader TypeExpr) :
    Exhausts (primary reader (innerLevel nesting))
      (.name word :: .symbol .less :: (inside ++ [.symbol .greater])) := by
  intro lexemes back same _
  obtain ⟨head, _, rfl, named, same⟩ := List.map_eq_cons_iff.mp same
  obtain ⟨opening, _, rfl, opens, same⟩ := List.map_eq_cons_iff.mp same
  obtain ⟨middle, _, rfl, insideTokens, final⟩ := List.map_eq_append_iff.mp same
  obtain ⟨closing, _, rfl, closes, nothing⟩ := List.map_eq_cons_iff.mp final
  rw [List.map_eq_nil_iff.mp nothing, List.cons_append, List.cons_append, List.append_assoc,
    List.singleton_append, run_primary_of_name named]
  · have noDot : Lacks .dot (opening :: (middle ++ closing :: back)) :=
      (meets_cons opens _).lacks (by decide)
    rw [reference, run_bind_ok (run_path named noDot), run_bind_ok (run_acceptSymbol_of_eq opens _),
      if_pos rfl]
    refine run_bind_error (run_within_of_tooDeep fun less same => ?_) _
    have closed : Lacks .arrow (closing :: back) := (meets_cons closes back).lacks (by decide)
    exact run_bind_error (deep less same insideTokens closed) _
  · rintro _ ⟨⟩
    exact ⟨.less, opens, operationOrReference_of_plain rfl _ _, fun _ => notNew⟩

/-- A list of one item in brackets that a primary is chosen by. -/
theorem exhausts_bracketed
    {nesting : Nat} {tokens : List Token} {opening closing : Symbol}
    {isSeparator : Lexeme → Bool} {item : TypeReader TypeExpr → TypeReader α}
    {build : List α → TypeExpr} (opens closes : Place)
    (last : closing ≠ .arrow)
    (selected : ∀ {head rest} reader inner, head.token = .symbol opening →
      (primary reader inner).run (head :: rest) =
        (within inner fun level => expect opening opens >>= fun _ =>
          untilClosed (isSymbol closing) isSeparator (item level.type) >>= fun values =>
            expect closing closes >>= fun _ => pure (build values)).run (head :: rest))
    (enters : Enters closing tokens)
    (deep : ∀ less, nesting = less + 1 → Exhausts (item (level less).type) tokens)
    (reader : TypeReader TypeExpr) :
    Exhausts (primary reader (innerLevel nesting))
      (.symbol opening :: (tokens ++ [.symbol closing])) := by
  intro lexemes back same _
  obtain ⟨first, _, rfl, opened, same⟩ := List.map_eq_cons_iff.mp same
  obtain ⟨middle, _, rfl, middleTokens, same⟩ := List.map_eq_append_iff.mp same
  obtain ⟨final, _, rfl, closed, nothing⟩ := List.map_eq_cons_iff.mp same
  rw [List.map_eq_nil_iff.mp nothing, List.cons_append, List.append_assoc, List.singleton_append,
    selected _ _ opened]
  refine run_within_of_tooDeep fun less same => ?_
  rw [run_bind_ok (run_expect_of_eq opened _ _)]
  have stays := (middleTokens ▸ enters).not_closing (final :: back)
  have noArrow : Lacks .arrow (final :: back) := (meets_cons closed back).lacks last
  have items : (untilClosed (isSymbol closing) isSeparator (item (level less).type)).run
      (middle ++ final :: back) = .error .tooDeep := by
    rw [run_untilClosed, run_bind_ok (run_next_of_ne stays)]
    exact run_bind_error (deep less same middleTokens noArrow) _
  exact run_bind_error items _

theorem Exhausts.tupleElement
    {reader : TypeReader TypeExpr} {tokens : List Token} (deep : Exhausts reader tokens)
    (begins : Begins tokens) :
    Exhausts (tupleElement reader) tokens := by
  intro lexemes back same noArrow
  rw [← same] at begins
  rw [TypeReader.tupleElement, acceptSymbol,
    run_bind_ok (run_accept_of_ne (begins.not_isSymbol rfl back))]
  exact run_bind_error (deep same noArrow) _

theorem Exhausts.property
    {reader : TypeReader TypeExpr} {tokens : List Token} (deep : Exhausts reader tokens)
    (word : String) :
    Exhausts (member reader) (.name word :: .symbol .colon :: tokens) := by
  intro lexemes back same noArrow
  obtain ⟨head, _, rfl, named, same⟩ := List.map_eq_cons_iff.mp same
  obtain ⟨colon, value, rfl, separates, later⟩ := List.map_eq_cons_iff.mp same
  rw [List.cons_append, List.cons_append, run_member_of_key (Or.inl named) separates]
  exact run_bind_error (deep later noArrow) _

theorem exhausts_tuple
    {nesting : Nat} {tokens : List Token} (begins : Begins tokens)
    (deep : ∀ less, nesting = less + 1 → Exhausts (level less).type tokens)
    (reader : TypeReader TypeExpr) :
    Exhausts (primary reader (innerLevel nesting))
      (.symbol .openBracket :: (tokens ++ [.symbol .closeBracket])) := by
  have closing : Symbol.closeBracket ≠ .arrow := nofun
  exact exhausts_bracketed .tupleStart .tupleEnd closing run_primary_of_openBracket
    (begins.enters rfl) (fun less same => (deep less same).tupleElement begins) reader

theorem exhausts_object
    {nesting : Nat} {tokens : List Token} (word : String)
    (deep : ∀ less, nesting = less + 1 → Exhausts (level less).type tokens)
    (reader : TypeReader TypeExpr) :
    Exhausts (primary reader (innerLevel nesting))
      (.symbol .openBrace :: (.name word :: .symbol .colon :: tokens ++ [.symbol .closeBrace])) := by
  have closing : Symbol.closeBrace ≠ .arrow := nofun
  have enters : Enters .closeBrace (.name word :: .symbol .colon :: tokens) := ⟨_, _, rfl, nofun⟩
  exact exhausts_bracketed .objectStart .objectEnd closing run_primary_of_openBrace enters
    (fun less same => (deep less same).property word) reader

/-- Around a type that runs out of levels, brackets do so with as many levels more as they open. -/
theorem exhausts_enclosed
    {count : Nat} {inside : List Token}
    (begins : Begins inside) (balanced : Balanced inside)
    (deep : ∀ nesting ≤ count, Exhausts (level nesting).type inside)
    (enclosure : Enclosure) {nesting : Nat} (few : nesting ≤ enclosure.levels + count) :
    Exhausts (level nesting).type (enclosure.tokens inside) := by
  cases nesting with
  | zero =>
      exact fun _ _ _ _ => rfl
  | succ nesting =>
      have lower : enclosure.levels = 2 →
          ∀ less, nesting = less + 1 → Exhausts (level less).type inside :=
        fun two less same => deep less (by omega)
      cases enclosure with
      | parentheses =>
          rw [Enclosure.levels] at few
          have inner := deep nesting (by omega)
          exact exhausts_type ⟨nofun, nofun⟩ (inner.parenthesized balanced _)
      | arguments =>
          exact exhausts_type ⟨nofun, nofun⟩
            (exhausts_reference (by decide) (lower (by rw [Enclosure.levels])) _)
      | tuple =>
          exact exhausts_type ⟨nofun, nofun⟩
            (exhausts_tuple begins (lower (by rw [Enclosure.levels])) _)
      | property =>
          exact exhausts_type ⟨nofun, nofun⟩
            (exhausts_object "X" (lower (by rw [Enclosure.levels])) _)

end TypeReader

/-! ## Brackets in brackets -/

namespace TypeExpr

/-- Whether the tokens of a text never have more than some brackets open at once. -/
def OpensAtMost (count : Nat) (text : String) : Prop :=
  ∃ lexemes, Lexeme.ofTypeText text = .ok lexemes ∧ ∀ taken rest, lexemes = taken ++ rest →
    (Openers.behind [] (taken.map Lexeme.token)).brackets ≤ count

theorem opensAtMost_of_spells
    {text : String} {tokens : List Token} {count : Nat}
    (spells : Spells text tokens) (few : tokens.countP Openers.opensBracket ≤ count) :
    OpensAtMost count text := by
  obtain ⟨lexemes, cut, rfl⟩ := spells.exists_lexemes
  refine ⟨lexemes, cut, fun taken rest shape => ?_⟩
  rw [shape, List.map_append, List.countP_append] at few
  have opened := Openers.brackets_behind_le [] (taken.map Lexeme.token)
  have nothing : Openers.brackets [] = 0 := rfl
  omega

end TypeExpr

/-- Brackets around brackets, the first ones outside. -/
abbrev Enclosures :=
  List Enclosure

namespace Enclosures

/-- A name in all of the brackets. -/
def text : Enclosures → String
  | [] => "X"
  | first :: others => first.opening ++ text others ++ first.closing

def tokens : Enclosures → List Token
  | [] => [.name "X"]
  | first :: others => first.tokens (tokens others)

def type : Enclosures → TypeExpr
  | [] => .named "X"
  | first :: others => first.type (type others)

/-- The levels that all of the brackets open. -/
def levels : Enclosures → Nat
  | [] => 0
  | first :: others => first.levels + levels others

theorem cut_text (around : Enclosures) {rest : List Char} (halts : Halts rest) :
    Cut (around.text.toList ++ rest) around.tokens rest := by
  induction around generalizing rest with
  | nil =>
      have name : Cut ("X".toList ++ []) [.name "X"] [] := spells_name rfl [] nofun
      exact name.append_right_of_halts halts nofun
  | cons first others inner =>
      have closed := first.closed_opening.append_halted (fun _ => inner) first.closed_closing
        first.halts_closing
      rw [List.append_assoc] at closed
      exact closed rest

theorem rises_tokens (around : Enclosures) : Rises around.levels around.tokens := by
  induction around with
  | nil =>
      exact fun openers => ⟨rfl, Nat.max_self _⟩
  | cons first others inner =>
      exact inner.enclosed first

open TypeReader

theorem begins_tokens (around : Enclosures) : Begins around.tokens := by
  cases around with
  | nil =>
      exact ⟨_, _, rfl, nofun⟩
  | cons first others =>
      cases first with
      | arguments =>
          exact ⟨_, _, rfl, nofun⟩
      | parentheses | tuple | property =>
          refine ⟨_, _, rfl, fun kind same => ?_⟩
          cases same
          rfl

theorem balanced_tokens (around : Enclosures) : Balanced around.tokens := by
  induction around with
  | nil =>
      exact balanced_plain rfl
  | cons first others inner =>
      exact inner.enclosed first

theorem spelled_tokens (around : Enclosures) : Spelled around.tokens around.type := by
  induction around with
  | nil =>
      exact spelled_named "X"
  | cons first others inner =>
      exact inner.enclosed (balanced_tokens others) first

theorem exhausts_tokens (around : Enclosures) :
    ∀ nesting ≤ around.levels, Exhausts (level nesting).type around.tokens := by
  induction around with
  | nil =>
      intro nesting few
      cases Nat.le_zero.mp few
      exact fun _ _ _ _ => rfl
  | cons first others inner =>
      exact fun nesting few =>
        exhausts_enclosed (begins_tokens others) (balanced_tokens others) inner first few

theorem spells_text (around : Enclosures) : Spells around.text around.tokens :=
  fun _ stops => cut_text around stops.halts

open TypeExpr

theorem levels_of_tooDeep
    {around : Enclosures} (deep : parse around.text = .error .tooDeep) :
    greatestNesting ≤ around.levels := by
  obtain ⟨lexemes, cut, tokens⟩ := (spells_text around).exists_lexemes
  rw [parse, cut] at deep
  obtain ⟨taken, rest, rfl, opened⟩ := exists_levels_of_tooDeep deep
  rw [List.map_append] at tokens
  have reached := Openers.levels_behind_le_peak [] (taken.map Lexeme.token) (rest.map Lexeme.token)
  rw [tokens, (rises_tokens around []).2] at reached
  have nothing : Openers.levels [] = 0 := rfl
  omega

theorem tooDeep_of_levels
    {around : Enclosures} (many : greatestNesting ≤ around.levels) :
    parse around.text = .error .tooDeep := by
  obtain ⟨lexemes, cut, tokens⟩ := (spells_text around).exists_lexemes
  have nothing : Lacks .arrow [] := by
    intro head first
    cases first
  have deep := exhausts_tokens around greatestNesting many tokens nothing
  rw [List.append_nil] at deep
  rw [parse, cut]
  change ofLexemes? _ = _
  rw [ofLexemes?, deep]

/-- A name in brackets is too deep just where the brackets open all the levels there are, and else
it is read as what they make of it. -/
theorem parse_text (around : Enclosures) :
    parse around.text =
      if around.levels < greatestNesting then .ok around.type else .error .tooDeep := by
  split
  · next few =>
    rcases parse_of_writes ⟨_, spells_text around, spelled_tokens around⟩ with deep | parsed
    · exact absurd (levels_of_tooDeep deep) (Nat.not_le.mpr few)
    · exact parsed
  · next many =>
    exact tooDeep_of_levels (Nat.le_of_not_lt many)

theorem countP_tokens (around : Enclosures) :
    around.tokens.countP Openers.opensBracket = around.length := by
  induction around with
  | nil =>
      rfl
  | cons first others inner =>
      have opened : first.front.countP Openers.opensBracket = 1 := by
        cases first <;> rfl
      have closed : Openers.opensBracket (.symbol first.closer) = false := by
        cases first <;> rfl
      rw [tokens, Enclosure.tokens, List.countP_append, List.countP_append, opened, inner,
        List.countP_singleton, closed, List.length_cons]
      exact Nat.add_comm 1 others.length

theorem opensAtMost_text
    {around : Enclosures} {count : Nat} (few : around.length ≤ count) :
    OpensAtMost count around.text :=
  opensAtMost_of_spells (spells_text around) (countP_tokens around ▸ few)

/-- All brackets but parentheses open two levels. -/
theorem levels_add_count (around : Enclosures) :
    around.levels + around.count .parentheses = 2 * around.length := by
  induction around with
  | nil =>
      rfl
  | cons first others inner =>
      rw [levels, List.count_cons, List.length_cons]
      cases first with
      | parentheses =>
          rw [Enclosure.levels, if_pos (beq_self_eq_true _)]
          omega
      | arguments | tuple | property =>
          rw [Enclosure.levels, if_neg (by decide)]
          omega

end Enclosures

namespace TypeExpr

/-- A name inside of tuples. -/
def tupleText (count : Nat) : String :=
  String.ofList (List.replicate count '[') ++ "X" ++ String.ofList (List.replicate count ']')

theorem text_replicate_tuple (count : Nat) :
    Enclosures.text (List.replicate count .tuple) = tupleText count := by
  induction count with
  | zero =>
      rfl
  | succ count inner =>
      rw [List.replicate_succ, Enclosures.text, inner, tupleText, tupleText,
        List.replicate_succ (n := count) (a := '['), List.replicate_succ']
      apply String.toList_injective
      simp [Enclosure.opening, Enclosure.closing]

theorem levels_replicate_tuple (count : Nat) :
    Enclosures.levels (List.replicate count .tuple) = 2 * count := by
  have levels := Enclosures.levels_add_count (List.replicate count .tuple)
  rw [List.count_replicate, if_neg (by decide), List.length_replicate] at levels
  exact levels

theorem parse_tupleText (count : Nat) :
    parse (tupleText count) =
      if count < 64 then .ok (Enclosures.type (List.replicate count .tuple))
      else .error .tooDeep := by
  have few : 2 * count < greatestNesting ↔ count < 64 := by
    rw [greatestNesting]
    omega
  rw [← text_replicate_tuple, Enclosures.parse_text, levels_replicate_tuple]
  exact if_congr few rfl rfl

/-- Operators nest without any brackets, and tuples with fewer of them than levels are allowed. -/
theorem tooDeep_of_few_brackets :
    (parse (operatorText greatestNesting) = .error .tooDeep ∧
      OpensAtMost greatestNesting (operatorText greatestNesting)) ∧
    (parse (tupleText 64) = .error .tooDeep ∧ OpensAtMost greatestNesting (tupleText 64)) := by
  refine ⟨⟨parse_operatorText, ?_⟩, parse_tupleText 64, ?_⟩
  · refine opensAtMost_of_spells (spells_operatorText greatestNesting) ?_
    decide
  · rw [← text_replicate_tuple]
    exact Enclosures.opensAtMost_text (by decide)

end TypeExpr

end TypeGraph
