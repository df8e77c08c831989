import TypeGraph.TypeExpr.Error

/-!
# Cutting texts into tokens

A text is cut with what follows it in place, so that a token is never longer than it is there. The
tokens of a text stay the same where it is followed by a character that goes on with no token.
-/

namespace TypeGraph

/-- Whether some tokens stand in front of the rest of a text. -/
inductive Cut : List Char → List Token → List Char → Prop where
  | done (rest : List Char) : Cut rest [] rest
  | skip {c : Char} {text rest : List Char} {tokens : List Token} :
      Scan.isSkipped c → Cut text tokens rest → Cut (c :: text) tokens rest
  | token {text rest : List Char} {tokens : List Token} {scan : Scan} :
      Scan.next? text = some scan → Cut scan.rest tokens rest →
      Cut text (scan.token :: tokens) rest

theorem Scan.next?_of_isSkipped {c : Char} (skipped : isSkipped c) (rest : List Char) :
    next? (c :: rest) = none := by
  simp only [isSkipped, Bool.or_eq_true, beq_iff_eq] at skipped
  rcases skipped with (((rfl | rfl) | rfl) | rfl) | rfl <;> rfl

theorem exists_of_map_eq_ok
    {ε α β : Type} {image : α → β} {outcome : Except ε α} {value : β}
    (succeeds : outcome.map image = .ok value) :
    ∃ inner, outcome = .ok inner ∧ image inner = value := by
  cases outcome with
  | error error =>
      cases succeeds
  | ok inner =>
      cases succeeds
      exact ⟨inner, rfl, rfl⟩

theorem Lexeme.ofTypeText_eq_ok_iff {text : String} {lexemes : List Lexeme} :
    ofTypeText text = .ok lexemes ↔ all text = .ok lexemes := by
  rw [ofTypeText]
  cases all text with
  | error position =>
      constructor <;> exact nofun
  | ok others =>
      constructor <;> rintro ⟨⟩ <;> rfl

theorem Lexeme.allFrom_of_next?
    {text : List Char} {scan : Scan} (scanned : Scan.next? text = some scan) (position : Nat) :
    allFrom position text =
      (allFrom (position + Text.byteLength scan.spelling) scan.rest).map
        (⟨scan.token, position, position + Text.byteLength scan.spelling⟩ :: ·) := by
  cases text with
  | nil =>
      cases scanned
  | cons c rest =>
      have notSkipped : ¬ Scan.isSkipped c := fun skipped => by
        rw [Scan.next?_of_isSkipped skipped] at scanned
        cases scanned
      rw [allFrom, if_neg notSkipped]
      split
      · next missing => rw [scanned] at missing; cases missing
      · next other found =>
        rw [scanned] at found
        cases found
        rfl

namespace Cut

theorem append
    {text middle rest : List Char} {tokens others : List Token}
    (first : Cut text tokens middle)
    (second : Cut middle others rest) :
    Cut text (tokens ++ others) rest := by
  induction first with
  | done =>
      exact second
  | skip skipped _ inner =>
      exact .skip skipped (inner second)
  | token scanned _ inner =>
      exact .token scanned (inner second)

theorem exists_lexemes
    {text rest : List Char} {tokens : List Token}
    (cut : Cut text tokens rest)
    (last : rest = [])
    (position : Nat) :
    ∃ lexemes, Lexeme.allFrom position text = .ok lexemes ∧
      lexemes.map Lexeme.token = tokens := by
  induction cut generalizing position with
  | done rest =>
      rw [last, Lexeme.allFrom]
      exact ⟨[], rfl, rfl⟩
  | @skip c text rest tokens skipped _ inner =>
      rw [Lexeme.allFrom, if_pos skipped]
      exact inner last _
  | @token text rest tokens scan scanned _ inner =>
      obtain ⟨lexemes, ran, tokensEq⟩ :=
        inner last (position + Text.byteLength scan.spelling)
      refine ⟨⟨scan.token, position, position + Text.byteLength scan.spelling⟩ :: lexemes,
        ?_, by rw [List.map_cons, tokensEq]⟩
      rw [Lexeme.allFrom_of_next? scanned, ran]
      rfl

theorem of_allFrom
    {position : Nat} {text : List Char} {lexemes : List Lexeme}
    (ran : Lexeme.allFrom position text = .ok lexemes) :
    Cut text (lexemes.map Lexeme.token) [] := by
  fun_induction Lexeme.allFrom position text generalizing lexemes with
  | case1 =>
      cases ran
      exact .done []
  | case2 position c rest skipped inner =>
      exact .skip skipped (inner ran)
  | case3 =>
      cases ran
  | case4 position c rest notSkipped scan scanned stop =>
      rename_i inner
      obtain ⟨others, later, rfl⟩ := exists_of_map_eq_ok ran
      exact .token scanned (inner later)

end Cut

/-! ## What may follow a token -/

/-- Whether a text goes on with no token in front of it: none of its first characters makes a name, a
numeral or a symbol longer. -/
def Stops (rest : List Char) : Prop :=
  ∀ c ∈ rest.head?, Scan.isNamePart c = false ∧ c ≠ '.' ∧ c ≠ '>'

/-- Whether a text goes on with no name and no numeral in front of it. Of the symbols an equals sign
may become longer. -/
def Halts (rest : List Char) : Prop :=
  ∀ c ∈ rest.head?, Scan.isNamePart c = false ∧ c ≠ '.'

theorem Stops.halts {rest : List Char} (stops : Stops rest) : Halts rest :=
  fun c member => ⟨(stops c member).1, (stops c member).2.1⟩

theorem takeWhile_append_of_head
    {inClass : Char → Bool} {rest : List Char}
    (stops : ∀ c ∈ rest.head?, inClass c = false)
    (text : List Char) :
    (text ++ rest).takeWhile inClass = text.takeWhile inClass ∧
      (text ++ rest).dropWhile inClass = text.dropWhile inClass ++ rest := by
  induction text with
  | nil =>
      cases rest with
      | nil =>
          exact ⟨rfl, rfl⟩
      | cons c rest =>
          have outside := stops c rfl
          simp [outside]
  | cons c text inner =>
      cases member : inClass c with
      | false =>
          simp [member]
      | true =>
          simp [member, inner]

theorem Halts.notDigit {rest : List Char} (halts : Halts rest) :
    ∀ c ∈ rest.head?, c.isDigit = false := by
  intro c member
  have notPart := (halts c member).1
  simp only [Scan.isNamePart, Char.isAlphanum, Bool.or_eq_false_iff] at notPart
  exact notPart.1.1.2

namespace Scan

theorem untilQuote?_quote (quote : Char) (rest : List Char) :
    untilQuote? quote (quote :: rest) = some ([], rest) := by
  rw [untilQuote?.eq_def]
  exact if_pos rfl

theorem untilQuote?_of_standsIn
    {quote c : Char}
    (different : c ≠ quote)
    (stands : standsIn quote c)
    (rest : List Char) :
    untilQuote? quote (c :: rest) =
      (untilQuote? quote rest).map fun (body, final) => (c :: body, final) := by
  rw [untilQuote?.eq_def]
  dsimp only
  rw [if_neg different, if_pos stands]

theorem untilQuote?_escaped
    {quote escaped : Char}
    (different : '\\' ≠ quote)
    (notEnd : escaped ≠ '\n')
    (rest : List Char) :
    untilQuote? quote ('\\' :: escaped :: rest) =
      (untilQuote? quote rest).map fun (body, final) => ('\\' :: escaped :: body, final) := by
  rw [untilQuote?.eq_def]
  dsimp only
  rw [if_neg different, if_neg (show ¬ standsIn quote '\\' by simp [standsIn])]
  exact if_neg notEnd

theorem untilQuote?_append_right
    {quote : Char} {text body final : List Char}
    (success : untilQuote? quote text = some (body, final))
    (rest : List Char) :
    untilQuote? quote (text ++ rest) = some (body, final ++ rest) := by
  fun_induction untilQuote? quote text generalizing body with
  | case1 =>
      cases success
  | case2 text =>
      cases success
      exact untilQuote?_quote quote (final ++ rest)
  | case3 c text different stands inner =>
      simp only [Option.map_eq_some_iff, Prod.exists, Prod.mk.injEq] at success
      obtain ⟨tail, final', ran, rfl, rfl⟩ := success
      rw [List.cons_append, untilQuote?_of_standsIn different stands, inner ran]
      rfl
  | case4 =>
      cases success
  | case5 text escaped notEnd different stands inner =>
      simp only [Option.map_eq_some_iff, Prod.exists, Prod.mk.injEq] at success
      obtain ⟨tail, final', ran, rfl, rfl⟩ := success
      rw [List.cons_append, List.cons_append, untilQuote?_escaped different notEnd, inner ran]
      rfl
  | case6 =>
      cases success

theorem numeral_of_not_point
    {text : List Char}
    (noPoint : ∀ first rest, text.dropWhile Char.isDigit = '.' :: first :: rest →
      first.isDigit = false) :
    numeral text = (text.takeWhile Char.isDigit, text.dropWhile Char.isDigit) := by
  unfold numeral
  dsimp only
  split
  · next first rest dropped =>
    rw [if_neg (by rw [noPoint first rest dropped]; exact Bool.false_ne_true), dropped]
  · rfl

theorem numeral_of_point
    {text rest : List Char} {first : Char}
    (point : text.dropWhile Char.isDigit = '.' :: first :: rest)
    (digit : first.isDigit) :
    numeral text =
      (text.takeWhile Char.isDigit ++ '.' :: (first :: rest).takeWhile Char.isDigit,
        (first :: rest).dropWhile Char.isDigit) := by
  unfold numeral
  dsimp only
  rw [point]
  exact if_pos digit

theorem numeral_append_of_halts {rest : List Char} (halts : Halts rest) (text : List Char) :
    numeral (text ++ rest) = ((numeral text).1, (numeral text).2 ++ rest) := by
  have digits := takeWhile_append_of_head halts.notDigit
  by_cases pointed : ∃ first final, text.dropWhile Char.isDigit = '.' :: first :: final ∧
      first.isDigit
  · obtain ⟨first, final, point, digit⟩ := pointed
    have longer : (text ++ rest).dropWhile Char.isDigit = '.' :: first :: (final ++ rest) := by
      rw [(digits text).2, point]
      rfl
    rw [numeral_of_point longer digit, numeral_of_point point digit, (digits text).1,
      ← List.cons_append, (digits (first :: final)).1, (digits (first :: final)).2]
  · have noPoint : ∀ first final, text.dropWhile Char.isDigit = '.' :: first :: final →
        first.isDigit = false := by
      intro first final point
      cases digit : first.isDigit with
      | false =>
          rfl
      | true =>
          exact absurd ⟨first, final, point, digit⟩ pointed
    rw [numeral_of_not_point noPoint, numeral_of_not_point, (digits text).1, (digits text).2]
    intro first final point
    rw [(digits text).2] at point
    rcases dropped : text.dropWhile Char.isDigit with _ | ⟨c, _ | ⟨second, others⟩⟩
    · rw [dropped, List.nil_append] at point
      exact absurd rfl (halts '.' (by rw [point]; rfl)).2
    · rw [dropped, List.singleton_append] at point
      cases point
      exact halts.notDigit first rfl
    · rw [dropped] at point
      cases point
      exact noPoint _ _ dropped

theorem scan?_append_of_halts
    {text rest : List Char} {symbol : Symbol}
    (halts : Halts rest)
    (noArrow : symbol = .equals → text.drop 1 = [] → ∀ c ∈ rest.head?, c ≠ '>')
    (success : Symbol.scan? text = some symbol) :
    Symbol.scan? (text ++ rest) = some symbol := by
  unfold Symbol.scan? at success
  split at success <;> cases success
  case h_2 tail noEllipsis =>
    rw [List.cons_append, Symbol.scan?]
    rintro more dots
    rcases tail with _ | ⟨c, _ | ⟨second, others⟩⟩
    · exact (halts '.' (by rw [← List.nil_append rest, dots]; rfl)).2 rfl
    · rw [List.singleton_append] at dots
      cases dots
      exact (halts '.' rfl).2 rfl
    · cases dots
      exact noEllipsis others rfl
  case h_20 tail otherwise =>
    rw [List.cons_append, Symbol.scan?]
    rintro more arrow
    rcases tail with _ | ⟨c, others⟩
    · exact noArrow rfl rfl '>' (by rw [← List.nil_append rest, arrow]; rfl) rfl
    · cases arrow
      exact otherwise others rfl
  all_goals rfl

theorem next?_of_nameStart {c : Char} (start : isNameStart c) (rest : List Char) :
    next? (c :: rest) =
      some ⟨.name (String.ofList ((c :: rest).takeWhile isNamePart)),
        (c :: rest).takeWhile isNamePart, (c :: rest).dropWhile isNamePart⟩ :=
  if_pos start

theorem isAlpha_iff (c : Char) :
    c.isAlpha ↔ (65 ≤ c.toNat ∧ c.toNat ≤ 90) ∨ (97 ≤ c.toNat ∧ c.toNat ≤ 122) := by
  change (decide (65 ≤ c.toNat ∧ c.toNat ≤ 90) ||
    (decide (97 ≤ c.toNat) && decide (c.toNat ≤ 122))) = true ↔ _
  rw [Bool.or_eq_true, Bool.and_eq_true, decide_eq_true_eq, decide_eq_true_eq, decide_eq_true_eq]

theorem isDigit_iff (c : Char) : c.isDigit ↔ 48 ≤ c.toNat ∧ c.toNat ≤ 57 := by
  change (decide (48 ≤ c.toNat) && decide (c.toNat ≤ 57)) = true ↔ _
  rw [Bool.and_eq_true, decide_eq_true_eq, decide_eq_true_eq]

theorem isNameStart_of_isDigit {c : Char} (digit : c.isDigit) : isNameStart c = false := by
  have notAlpha : c.isAlpha = false := by
    rw [isDigit_iff] at digit
    rw [Bool.eq_false_iff, Ne, isAlpha_iff]
    omega
  have notUnderscore : c ≠ '_' := by
    rintro rfl
    cases digit
  have notDollar : c ≠ '$' := by
    rintro rfl
    cases digit
  simp [isNameStart, notAlpha, notUnderscore, notDollar]

theorem next?_of_isDigit {c : Char} (digit : c.isDigit) (rest : List Char) :
    next? (c :: rest) =
      some ⟨.number (String.ofList (numeral (c :: rest)).1), (numeral (c :: rest)).1,
        (numeral (c :: rest)).2⟩ := by
  rw [next?, isNameStart_of_isDigit digit, if_neg Bool.false_ne_true, if_pos digit]

theorem next?_of_quote {quote : Char} (quotes : isQuote quote) (rest : List Char) :
    next? (quote :: rest) =
      (untilQuote? quote rest).map fun (body, rest) =>
        ⟨.string (String.ofList body), quote :: (body ++ [quote]), rest⟩ := by
  simp only [isQuote, Bool.or_eq_true, beq_iff_eq] at quotes
  rcases quotes with (rfl | rfl) | rfl <;> rfl

theorem next?_append_of_halts
    {text rest : List Char} {scan : Scan}
    (halts : Halts rest)
    (noArrow : scan.token = .symbol .equals → scan.rest = [] → ∀ c ∈ rest.head?, c ≠ '>')
    (success : next? text = some scan) :
    next? (text ++ rest) = some { scan with rest := scan.rest ++ rest } := by
  cases text with
  | nil =>
      cases success
  | cons c text =>
      rw [List.cons_append]
      by_cases start : isNameStart c
      · rw [next?_of_nameStart start] at success ⊢
        cases success
        have parts := takeWhile_append_of_head (fun c member => (halts c member).1) (c :: text)
        rw [← List.cons_append, parts.1, parts.2]
      · by_cases digit : c.isDigit
        · rw [next?_of_isDigit digit] at success ⊢
          cases success
          rw [← List.cons_append, numeral_append_of_halts halts]
        · by_cases quotes : isQuote c
          · rw [next?_of_quote quotes] at success ⊢
            simp only [Option.map_eq_some_iff, Prod.exists] at success
            obtain ⟨body, final, ran, rfl⟩ := success
            rw [untilQuote?_append_right ran]
            rfl
          · rw [next?, if_neg start, if_neg digit, if_neg quotes] at success ⊢
            simp only [Option.map_eq_some_iff] at success
            obtain ⟨symbol, ran, rfl⟩ := success
            have longer := scan?_append_of_halts halts (fun same => by
              subst same
              exact noArrow rfl) ran
            rw [List.cons_append] at longer
            have shorter : symbol.spelling.length ≤ (c :: text).length := by
              have whole := congrArg List.length (spelling_eq_of_scan? ran).1
              rw [List.length_append] at whole
              omega
            rw [longer, Option.map_some, ← List.cons_append, List.drop_append_of_le_length shorter]

end Scan

theorem Cut.tokens_eq_nil {tokens : List Token} {final : List Char} (cut : Cut [] tokens final) :
    tokens = [] := by
  cases cut with
  | done =>
      rfl
  | token scanned _ =>
      cases scanned

/-- The tokens of a text stay the same in front of what goes on with no name and no numeral, unless
the last of them becomes an arrow. -/
theorem Cut.append_right_of_halts
    {text rest : List Char} {tokens : List Token} {final : List Char}
    (cut : Cut text tokens final)
    (halts : Halts rest)
    (noArrow : tokens.getLast? = some (.symbol .equals) → ∀ c ∈ rest.head?, c ≠ '>') :
    Cut (text ++ rest) tokens (final ++ rest) := by
  induction cut with
  | done final =>
      exact .done (final ++ rest)
  | skip skipped _ inner =>
      exact .skip skipped (inner noArrow)
  | @token text final tokens scan scanned later inner =>
      have longer : Scan.next? (text ++ rest) = some { scan with rest := scan.rest ++ rest } := by
        apply Scan.next?_append_of_halts halts ?_ scanned
        intro equals atEnd
        apply noArrow
        rw [atEnd] at later
        rw [later.tokens_eq_nil, equals]
        rfl
      have others : tokens.getLast? = some (.symbol .equals) → ∀ c ∈ rest.head?, c ≠ '>' := by
        intro last
        apply noArrow
        rw [List.getLast?_cons, last]
        rfl
      exact @Cut.token _ _ _ { scan with rest := scan.rest ++ rest } longer (inner others)

/-- The tokens of a text stay the same in front of what goes on with no token. -/
theorem Cut.append_right
    {text rest : List Char} {tokens : List Token} {final : List Char}
    (cut : Cut text tokens final)
    (stops : Stops rest) :
    Cut (text ++ rest) tokens (final ++ rest) :=
  cut.append_right_of_halts stops.halts fun _ c member => (stops c member).2.2

end TypeGraph
