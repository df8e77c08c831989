import TypeGraph.Proofs.TypeExpr.Lexemes
import TypeGraph.Proofs.TypeExpr.Productions

/-!
# Blanks between tokens

More blanks between the tokens of a text change none of them: the lexemes behind the place move on
by as many bytes. What the lexemes spell depends on their tokens only, so the text keeps its type, or
its error with the position moved alike.
-/

namespace TypeGraph

open Text

/-! ## Places that move -/

/-- Where a place comes to be when bytes are put in at a position. -/
def movedPlace (position amount place : Nat) : Nat :=
  if position ≤ place then place + amount else place

/-- The lexeme where bytes are put in at a position that is not inside of it. -/
def Lexeme.moved (position amount : Nat) (lexeme : Lexeme) : Lexeme :=
  if position ≤ lexeme.start then
    { lexeme with start := lexeme.start + amount, stop := lexeme.stop + amount }
  else lexeme

/-- The error where bytes are put in at a position that is not inside of a token. -/
def TypeTextError.moved (position amount : Nat) : TypeTextError → TypeTextError
  | invalidCharacter text place => invalidCharacter text (movedPlace position amount place)
  | unexpectedToken found place expectation =>
    unexpectedToken found (movedPlace position amount place) expectation
  | unexpectedEnd expectation => unexpectedEnd expectation
  | trailingInput place => trailingInput (movedPlace position amount place)
  | tooDeep => tooDeep

theorem Lexeme.token_moved (position amount : Nat) (lexeme : Lexeme) :
    (lexeme.moved position amount).token = lexeme.token := by
  unfold moved
  split <;> rfl

theorem Lexeme.start_moved (position amount : Nat) (lexeme : Lexeme) :
    (lexeme.moved position amount).start = movedPlace position amount lexeme.start := by
  unfold moved movedPlace
  split <;> rfl

theorem Lexeme.moved_of_le
    {position start : Nat} (behind : position ≤ start)
    (amount stop : Nat) (token : Token) :
    moved position amount ⟨token, start, stop⟩ = ⟨token, start + amount, stop + amount⟩ :=
  if_pos behind

theorem Lexeme.moved_of_lt
    {position start : Nat} (inFront : start < position)
    (amount stop : Nat) (token : Token) :
    moved position amount ⟨token, start, stop⟩ = ⟨token, start, stop⟩ :=
  if_neg (Nat.not_le_of_lt inFront)

/-! ## Scanning past blanks -/

theorem halts_of_isSkipped {c : Char} (skipped : Scan.isSkipped c) (rest : List Char) :
    Halts (c :: rest) := by
  intro first member
  cases member
  simp only [Scan.isSkipped, Bool.or_eq_true, beq_iff_eq] at skipped
  rcases skipped with (((rfl | rfl) | rfl) | rfl) | rfl <;> decide

/-- A token stays the longest where blanks are put in somewhere behind it. -/
theorem Scan.next?_blanks
    {token : Token} {spelling front after blanks : List Char}
    (scanned : next? (spelling ++ (front ++ after)) = some ⟨token, spelling, front ++ after⟩)
    (skipped : ∀ c ∈ blanks, isSkipped c) :
    next? (spelling ++ (front ++ (blanks ++ after))) =
      some ⟨token, spelling, front ++ (blanks ++ after)⟩ := by
  cases blanks with
  | nil =>
      exact scanned
  | cons c blanks =>
      have cut : next? (spelling ++ front) = some ⟨token, spelling, front⟩ := by
        rw [next?_eq_some_iff] at scanned ⊢
        have begins : spelling ++ front <+: spelling ++ (front ++ after) :=
          ⟨after, List.append_assoc spelling front after⟩
        exact ⟨scanned.1.inFront (List.prefix_append spelling front) begins, rfl⟩
      have skippedFirst : isSkipped c := skipped c List.mem_cons_self
      have halts := halts_of_isSkipped skippedFirst (blanks ++ after)
      have noArrow : ∀ other ∈ (c :: (blanks ++ after)).head?, other ≠ '>' := by
        rintro _ ⟨⟩ rfl
        cases skippedFirst
      have longer := next?_append_of_halts halts (fun _ _ => noArrow) cut
      rwa [List.append_assoc] at longer

namespace Lexeme

theorem allFrom_blanks
    {blanks : List Char} (skipped : ∀ c ∈ blanks, Scan.isSkipped c)
    (start : Nat) (after : List Char) :
    allFrom start (blanks ++ after) = allFrom (start + byteLength blanks) after := by
  induction blanks generalizing start with
  | nil =>
      rfl
  | cons c blanks inner =>
      rw [List.forall_mem_cons] at skipped
      rw [List.cons_append, allFrom, if_pos skipped.1, inner skipped.2, Nat.add_assoc]
      rfl

/-- The lexemes of a text that begins further on. -/
theorem allFrom_add
    {position start : Nat} {text : List Char} {lexemes : List Lexeme}
    (ran : allFrom start text = .ok lexemes)
    (behind : position ≤ start)
    (amount : Nat) :
    allFrom (start + amount) text = .ok (lexemes.map (moved position amount)) := by
  fun_induction allFrom start text generalizing lexemes with
  | case1 =>
      cases ran
      rw [allFrom]
      rfl
  | case2 start c rest skipped inner =>
      rw [allFrom, if_pos skipped, Nat.add_right_comm]
      exact inner ran (Nat.le_add_right_of_le behind)
  | case3 =>
      cases ran
  | case4 start c rest notSkipped scan scanned stop =>
      rename_i inner
      obtain ⟨others, later, rfl⟩ := exists_of_map_eq_ok ran
      have moves := inner later (Nat.le_add_right_of_le behind)
      rw [allFrom_of_next? scanned, Nat.add_right_comm, moves, List.map_cons, moved_of_le behind]
      rfl

/-! ## Positions between lexemes -/

/-- Whether a position is inside of no lexeme. -/
def Between (lexemes : List Lexeme) (position : Nat) : Prop :=
  ∀ lexeme ∈ lexemes, ¬ (lexeme.start < position ∧ position < lexeme.stop)

instance (lexemes : List Lexeme) (position : Nat) : Decidable (Between lexemes position) :=
  inferInstanceAs (Decidable (∀ lexeme ∈ lexemes, _))

theorem between_cons_iff {lexeme : Lexeme} {others : List Lexeme} {position : Nat} :
    Between (lexeme :: others) position ↔
      ¬ (lexeme.start < position ∧ position < lexeme.stop) ∧ Between others position :=
  List.forall_mem_cons

/-- A position between lexemes is one between characters. -/
theorem exists_split_of_between
    {start position : Nat} {text : List Char} {lexemes : List Lexeme}
    (ran : allFrom start text = .ok lexemes)
    (between : Between lexemes position)
    (lower : start ≤ position)
    (upper : position ≤ start + byteLength text) :
    ∃ before after, text = before ++ after ∧ start + byteLength before = position := by
  by_cases first : start = position
  · exact ⟨[], text, rfl, first⟩
  fun_induction allFrom start text generalizing lexemes with
  | case1 start =>
      exact absurd (Nat.le_antisymm lower upper) first
  | case2 start c rest skipped inner =>
      obtain ⟨byte, _, encoded⟩ := utf8EncodeChar_of_isSkipped skipped
      have size : c.utf8Size = 1 := by
        rw [← String.length_utf8EncodeChar, encoded]
        rfl
      have whole : byteLength (c :: rest) = c.utf8Size + byteLength rest := rfl
      by_cases next : start + c.utf8Size = position
      · exact ⟨[c], rest, rfl, next⟩
      · obtain ⟨before, after, rfl, reached⟩ :=
          inner ran between (by omega) (by omega) next
        refine ⟨c :: before, after, rfl, ?_⟩
        rw [← reached, Nat.add_assoc]
        rfl
  | case3 =>
      cases ran
  | case4 start c rest notSkipped scan scanned stop =>
      rename_i inner
      obtain ⟨others, later, rfl⟩ := exists_of_map_eq_ok ran
      rw [between_cons_iff] at between
      have parts := Scan.spelling_append_rest scanned
      have outside : ¬ (start < position ∧ position < stop) := between.1
      have whole : byteLength (c :: rest) = byteLength scan.spelling + byteLength scan.rest := by
        rw [← parts, byteLength_append]
      by_cases next : stop = position
      · exact ⟨scan.spelling, scan.rest, parts.symm, next⟩
      · obtain ⟨before, after, same, reached⟩ :=
          inner later between.2 (by omega) (by omega) next
        refine ⟨scan.spelling ++ before, after, ?_, ?_⟩
        · rw [← parts, same, List.append_assoc]
        · rw [← reached, byteLength_append, Nat.add_assoc]

theorem prefix_of_byteLength_le
    {first second text : List Char}
    (firstBegins : first <+: text)
    (secondBegins : second <+: text)
    (shorter : byteLength first ≤ byteLength second) :
    first <+: second := by
  rcases List.prefix_or_prefix_of_prefix firstBegins secondBegins with inside | inside
  · exact inside
  · obtain ⟨more, rfl⟩ := inside
    rw [byteLength_append] at shorter
    have nothing : more = [] := by
      by_contra nonempty
      have positive := byteLength_pos nonempty
      omega
    rw [nothing, List.append_nil]

theorem allFrom_blanks_front
    {start : Nat} {blanks after : List Char} {lexemes : List Lexeme}
    (ran : allFrom start after = .ok lexemes)
    (skipped : ∀ c ∈ blanks, Scan.isSkipped c) :
    allFrom start (blanks ++ after) =
      .ok (lexemes.map (moved start (byteLength blanks))) := by
  rw [allFrom_blanks skipped]
  exact allFrom_add ran (Nat.le_refl start) _

theorem allFrom_of_next?_eq_none
    {c : Char} {rest : List Char}
    (notSkipped : ¬ Scan.isSkipped c)
    (missing : Scan.next? (c :: rest) = none)
    (start : Nat) :
    allFrom start (c :: rest) = .error start := by
  rw [allFrom, if_neg notSkipped]
  split
  · rfl
  · next scanned =>
    rw [missing] at scanned
    cases scanned

/-- A token that a part of a text does not end inside of is in that part. -/
theorem exists_front_of_next?
    {before after : List Char} {scan : Scan}
    (scanned : Scan.next? (before ++ after) = some scan)
    (inside : byteLength scan.spelling ≤ byteLength before) :
    ∃ front, before = scan.spelling ++ front ∧ scan.rest = front ++ after := by
  have parts := Scan.spelling_append_rest scanned
  obtain ⟨front, rfl⟩ : scan.spelling <+: before :=
    prefix_of_byteLength_le ⟨scan.rest, parts⟩ ⟨after, rfl⟩ inside
  rw [List.append_assoc] at parts
  exact ⟨front, rfl, List.append_cancel_left parts⟩

/-- Blanks that are put in between lexemes move those behind them. -/
theorem allFrom_blanks_between
    {start : Nat} {before blanks after : List Char} {lexemes : List Lexeme}
    (ran : allFrom start (before ++ after) = .ok lexemes)
    (between : Between lexemes (start + byteLength before))
    (skipped : ∀ c ∈ blanks, Scan.isSkipped c) :
    allFrom start (before ++ (blanks ++ after)) =
      .ok (lexemes.map (moved (start + byteLength before) (byteLength blanks))) := by
  induction size : before.length using Nat.strongRecOn generalizing start before lexemes with
  | ind bound inner =>
      cases before with
      | nil =>
          exact allFrom_blanks_front ran skipped
      | cons c front =>
          by_cases blank : Scan.isSkipped c
          · have place : start + byteLength (c :: front) =
                start + c.utf8Size + byteLength front := (Nat.add_assoc _ _ _).symm
            rw [List.cons_append, allFrom, if_pos blank] at ran ⊢
            rw [place] at between ⊢
            exact inner front.length (by rw [← size, List.length_cons]; omega) ran between rfl
          · cases scanned : Scan.next? (c :: front ++ after) with
            | none =>
                rw [List.cons_append] at scanned ran
                rw [allFrom_of_next?_eq_none blank scanned] at ran
                cases ran
            | some scan =>
                rw [allFrom_of_next? scanned] at ran
                obtain ⟨others, later, rfl⟩ := exists_of_map_eq_ok ran
                rw [between_cons_iff] at between
                obtain ⟨outside, between⟩ := between
                have nonempty := byteLength_pos (List.cons_ne_nil c front)
                have positive := byteLength_pos (Scan.spelling_ne_nil scanned)
                have taken := List.length_pos_iff.mpr (Scan.spelling_ne_nil scanned)
                dsimp only at outside
                obtain ⟨middle, same, rest⟩ := exists_front_of_next? scanned (by omega)
                obtain ⟨token, spelling, _⟩ := scan
                subst rest
                have shorter : middle.length < bound := by
                  rw [← size, same, List.length_append]
                  exact Nat.lt_add_of_pos_left taken
                have place : start + byteLength (c :: front) =
                    start + byteLength spelling + byteLength middle := by
                  rw [same, byteLength_append, Nat.add_assoc]
                rw [place] at between ⊢
                have moves := inner middle.length shorter later between rfl
                rw [same, List.append_assoc] at scanned ⊢
                rw [allFrom_of_next? (Scan.next?_blanks scanned skipped), moves, List.map_cons,
                  moved_of_lt (by dsimp only at positive; omega)]
                rfl

end Lexeme

/-! ## Reading lexemes that moved -/

namespace TypeExpr

theorem endsType_of_mem_head?_nil :
    ∀ head ∈ ([] : List Lexeme).head?, ∃ kind, head.token = .symbol kind ∧ kind.endsType :=
  fun head member => absurd member (Option.not_mem_none head)

/-- Lexemes beside the same lexemes where bytes are put in. -/
def movedBy (position amount : Nat) : Alignment where
  lexeme left right := right = left.moved position amount
  text := id
  back := []
  shallower := False
  mapText_token := by
    rintro left _ rfl
    rw [Lexeme.token_moved]
  back_ends := endsType_of_mem_head?_nil

theorem movedBy_back (position amount : Nat) : (movedBy position amount).back = [] :=
  rfl

open TypeReader in
theorem eq_moved_of_fails
    {position amount : Nat} {error other : TypeTextError}
    (fails : Fails (movedBy position amount) error other) :
    other = error.moved position amount := by
  cases fails with
  | tooDeep =>
      rfl
  | atEnd expectation =>
      rfl
  | «at» expectation kin =>
      cases kin
      rw [Lexeme.token_moved, Lexeme.start_moved]
      rfl

open TypeReader in
/-- What lexemes spell does not depend on where they are, but for the positions in errors. -/
theorem ofLexemes?_moved (position amount : Nat) (lexemes : List Lexeme) :
    ofLexemes? (lexemes.map (Lexeme.moved position amount)) =
      (ofLexemes? lexemes).mapError (TypeTextError.moved position amount) := by
  have levels : Levels (movedBy position amount) (level greatestNesting) (level greatestNesting) :=
    levels_level (Nat.le_refl _) fun less => absurd less (Nat.lt_irrefl _)
  have aligned : List.Forall₂ (movedBy position amount).lexeme lexemes
      (lexemes.map (Lexeme.moved position amount)) :=
    List.forall₂_map_right_iff.mpr (List.forall₂_same.mpr fun _ _ => rfl)
  have agree := levels.type aligned
  rw [movedBy_back, List.append_nil] at agree
  unfold ofLexemes?
  cases ran : (level greatestNesting).type.run lexemes with
  | error error =>
      rw [ran] at agree
      obtain impossible | ⟨other, outcome, impossible | fails⟩ := agree
      · exact absurd rfl impossible
      · exact impossible.elim
      · rw [outcome, eq_moved_of_fails fails]
        rfl
  | ok success =>
      obtain ⟨type, rest⟩ := success
      rw [ran] at agree
      obtain ⟨_, after, rests, ⟨other, same, outcome⟩ | ⟨impossible, _⟩ | ⟨impossible, _⟩⟩ := agree
      · rw [movedBy_back, List.append_nil] at outcome
        change other.mapText id = type.mapText id at same
        rw [mapText_id, mapText_id] at same
        rw [outcome, same]
        cases rests with
        | nil =>
            rfl
        | @cons head _ _ _ kin _ =>
            cases kin
            dsimp only
            rw [Lexeme.start_moved]
            rfl
      · exact impossible.elim
      · exact absurd trivial impossible

/-! ## Texts with more blanks -/

theorem exists_blanks {run : List UInt8} (blank : ∀ byte ∈ run, byte ∈ skippedBytes) :
    ∃ blanks : List Char, (∀ c ∈ blanks, Scan.isSkipped c) ∧
      blanks.flatMap String.utf8EncodeChar = run := by
  induction run with
  | nil =>
      exact ⟨[], List.forall_mem_nil _, rfl⟩
  | cons byte run inner =>
      rw [List.forall_mem_cons] at blank
      obtain ⟨blanks, skipped, encoded⟩ := inner blank.2
      obtain ⟨c, skippedFirst, encodedFirst⟩ :
          ∃ c, Scan.isSkipped c ∧ String.utf8EncodeChar c = [byte] := by
        have known := blank.1
        simp only [skippedBytes, List.mem_cons, List.not_mem_nil, or_false] at known
        rcases known with rfl | rfl | rfl | rfl | rfl
        · exact ⟨' ', by decide, rfl⟩
        · exact ⟨'\t', by decide, rfl⟩
        · exact ⟨'\r', by decide, rfl⟩
        · exact ⟨'\n', by decide, rfl⟩
        · exact ⟨'\x0c', by decide, rfl⟩
      refine ⟨c :: blanks, List.forall_mem_cons.mpr ⟨skippedFirst, skipped⟩, ?_⟩
      rw [List.flatMap_cons, encoded, encodedFirst, List.singleton_append]

/-- Whatever blanks are put into a text between its tokens, the tokens stay the same, those behind
the blanks move on by as many bytes, and the type or the error is the same but for its position. -/
theorem parse_spaced
    {text : String} {lexemes : List Lexeme} {position : Nat} {run : List UInt8}
    (found : Lexeme.ofTypeText text = .ok lexemes)
    (inside : position ≤ text.utf8ByteSize)
    (between : Lexeme.Between lexemes position)
    (blank : ∀ byte ∈ run, byte ∈ skippedBytes) :
    ∃ spaced, bytes spaced = (bytes text).take position ++ run ++ (bytes text).drop position ∧
      Lexeme.ofTypeText spaced = .ok (lexemes.map (Lexeme.moved position run.length)) ∧
      parse spaced = (parse text).mapError (TypeTextError.moved position run.length) := by
  obtain ⟨blanks, skipped, rfl⟩ := exists_blanks blank
  rw [length_flatMap_utf8EncodeChar]
  have ran : Lexeme.allFrom 0 text.toList = .ok lexemes := Lexeme.ofTypeText_eq_ok_iff.mp found
  have size : position ≤ 0 + byteLength text.toList := by
    rwa [Nat.zero_add, byteLength_toList]
  obtain ⟨before, after, whole, reached⟩ :=
    Lexeme.exists_split_of_between ran between (Nat.zero_le position) size
  rw [whole] at ran
  have moves := Lexeme.allFrom_blanks_between ran (reached.symm ▸ between) skipped
  rw [Nat.zero_add] at reached moves
  subst reached
  have spacedLexemes : Lexeme.ofTypeText (String.ofList (before ++ (blanks ++ after))) =
      .ok (lexemes.map (Lexeme.moved (byteLength before) (byteLength blanks))) := by
    rw [Lexeme.ofTypeText_eq_ok_iff, Lexeme.all, String.toList_ofList, moves]
  refine ⟨String.ofList (before ++ (blanks ++ after)), ?_, spacedLexemes, ?_⟩
  · rw [bytes_eq_flatMap, bytes_eq_flatMap, String.toList_ofList, whole, List.flatMap_append,
      List.flatMap_append, List.flatMap_append, ← length_flatMap_utf8EncodeChar, List.take_left,
      List.drop_left, List.append_assoc]
  · rw [parse, parse, spacedLexemes, found]
    exact ofLexemes?_moved _ _ lexemes

theorem parse_spaced_dots :
    Lexeme.ofTypeText "1..x" =
        .ok [⟨.number "1", 0, 1⟩, ⟨.symbol .dot, 1, 2⟩, ⟨.symbol .dot, 2, 3⟩, ⟨.name "x", 3, 4⟩] ∧
      parse "1..x" = .error (.trailingInput 1) ∧
      ∃ spaced, bytes spaced = [0x31, 0x20, 0x0A, 0x2E, 0x2E, 0x78] ∧
        Lexeme.ofTypeText spaced =
          .ok [⟨.number "1", 0, 1⟩, ⟨.symbol .dot, 3, 4⟩, ⟨.symbol .dot, 4, 5⟩,
            ⟨.name "x", 5, 6⟩] ∧
        parse spaced = .error (.trailingInput 3) := by
  have found : Lexeme.ofTypeText "1..x" =
      .ok [⟨.number "1", 0, 1⟩, ⟨.symbol .dot, 1, 2⟩, ⟨.symbol .dot, 2, 3⟩, ⟨.name "x", 3, 4⟩] := by
    with_unfolding_all rfl
  have parsed : parse "1..x" = .error (.trailingInput 1) := by
    with_unfolding_all rfl
  have spaced := @parse_spaced "1..x" _ 1 [0x20, 0x0A] found (by decide) (by decide)
    (by simp [skippedBytes])
  rw [parsed] at spaced
  exact ⟨found, parsed, spaced⟩

end TypeExpr

end TypeGraph
