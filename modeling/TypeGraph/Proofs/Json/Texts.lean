import Mathlib.Data.List.Forall2
import TypeGraph.Json.Parser
import TypeGraph.Json.Printer
import TypeGraph.Proofs.Json.Values
import TypeGraph.Proofs.Reader

/-!
# Values read back from their text

The text of a value without real numbers spells the document of the value. Every part is read in
front of what may follow it in a document, so that a numeral ends where it was written to end.
-/

namespace TypeGraph.Json

open Reader TextReader Text

/-! ## Strings -/

namespace Piece

/-- How a character is read back. -/
def ofChar (c : Char) : Piece :=
  if c.toNat < 0x20 ∧ (controlLetter? c).isNone then .code c.toNat else .char c

theorem text?_code_cons {unit : Nat} (small : unit < 0xD800) (rest : List Piece) :
    text? (.code unit :: rest) = (text? rest).map (Char.ofNat unit :: ·) := by
  have notHigh : isHighSurrogate unit = false := by
    rw [isHighSurrogate, Bool.and_eq_false_iff, decide_eq_false_iff_not]
    exact Or.inl (by omega)
  have notLow : isLowSurrogate unit = false := by
    rw [isLowSurrogate, Bool.and_eq_false_iff, decide_eq_false_iff_not]
    exact Or.inl (by omega)
  rcases rest with _ | ⟨_ | _, _⟩ <;> simp [text?, notHigh, notLow]

theorem text?_map_ofChar (chars : List Char) : text? (chars.map ofChar) = some chars := by
  induction chars with
  | nil =>
      rfl
  | cons c rest inner =>
      rw [List.map_cons, ofChar]
      split
      · next control =>
        rw [text?_code_cons (by omega), inner, Option.map_some, Char.ofNat_toNat]
      · rw [text?, inner]
        rfl

theorem escaped?_controlLetter
    {c letter : Char} (named : controlLetter? c = some letter) :
    letter ≠ 'u' ∧ escaped? letter = some c := by
  have code : ∀ {code : Nat}, c.toNat = code → c = Char.ofNat code := by
    rintro _ rfl
    exact (Char.ofNat_toNat c).symm
  unfold controlLetter? at named
  split at named
  · next same => cases named; rw [code same]; decide
  · next same => cases named; rw [code same]; decide
  · next same => cases named; rw [code same]; decide
  · next same => cases named; rw [code same]; decide
  · next same => cases named; rw [code same]; decide
  · cases named

theorem hexNumber?_unicodeEscape {code : Nat} (small : code < 0x20) :
    hexNumber? ['0', '0', Nat.digitChar (code / 16), Nat.digitChar (code % 16)] = some code := by
  revert code
  decide

end Piece

namespace TextReader

theorem run_expect_self (c : Char) (atEnd elsewhere : Cause) (rest : List Char) :
    (expect c atEnd elsewhere).run (c :: rest) = .ok ((), rest) := by
  rw [expect, run_bind_ok (run_accept_self c rest)]
  rfl

theorem run_pieceFrom_letter
    {letter c : Char} (notCode : letter ≠ 'u') (escaped : Piece.escaped? letter = some c)
    (rest : List Char) :
    (pieceFrom '\\').run (letter :: rest) = .ok (.char c, rest) := by
  have off : ∀ head ∈ (letter :: rest).head?, (head == 'u') = false := by
    intro head member
    cases member
    exact beq_eq_false_iff_ne.mpr notCode
  rw [pieceFrom, if_pos rfl, run_bind_ok (run_accept_of_ne off), if_neg Bool.false_ne_true,
    run_bind_ok (run_remaining _), List.head?_cons, Option.bind_some, escaped]
  rfl

theorem run_hexUnit {code : Nat} (small : code < 0x20) (rest : List Char) :
    hexUnit.run
        ('0' :: '0' :: Nat.digitChar (code / 16) :: Nat.digitChar (code % 16) :: rest) =
      .ok (code, rest) := by
  have enough : ¬ Text.byteLength
      ('0' :: '0' :: Nat.digitChar (code / 16) :: Nat.digitChar (code % 16) :: rest) < 4 := by
    have first := Char.utf8Size_pos (Nat.digitChar (code / 16))
    have second := Char.utf8Size_pos (Nat.digitChar (code % 16))
    change ¬ 1 + (1 + (_ + (_ + Text.byteLength rest))) < 4
    omega
  rw [hexUnit, run_bind_ok (run_remaining _), if_neg enough, List.take_succ_cons,
    List.take_succ_cons, List.take_succ_cons, List.take_succ_cons, List.take_zero,
    Piece.hexNumber?_unicodeEscape small]
  rfl

theorem run_pieceFrom_code {code : Nat} (small : code < 0x20) (rest : List Char) :
    (pieceFrom '\\').run
        ('u' :: '0' :: '0' :: Nat.digitChar (code / 16) :: Nat.digitChar (code % 16) :: rest) =
      .ok (.code code, rest) := by
  rw [pieceFrom, if_pos rfl, run_bind_ok (run_accept_self 'u' _), if_pos rfl,
    run_bind_ok (run_hexUnit small rest)]
  rfl

theorem run_pieceFrom_plain
    {c : Char} (plain : c ≠ '\\') (printable : ¬ c.toNat < 0x20) (rest : List Char) :
    (pieceFrom c).run rest = .ok (.char c, rest) := by
  have noControl : Piece.isControl c = false := decide_eq_false printable
  rw [pieceFrom, if_neg plain, noControl, if_neg Bool.false_ne_true]
  rfl

/-- The escaped form of a character is read as one piece. -/
theorem run_pieceFrom_escapeIn (c : Char) (rest : List Char) :
    ∃ head tail, escapeIn '"' c = head :: tail ∧ head ≠ '"' ∧
      (pieceFrom head).run (tail ++ rest) = .ok (Piece.ofChar c, rest) := by
  unfold escapeIn Piece.ofChar
  split
  · next marked =>
    refine ⟨'\\', [c], rfl, by decide, ?_⟩
    rw [List.singleton_append]
    rcases marked with rfl | rfl
    · exact run_pieceFrom_letter (by decide) rfl rest
    · exact run_pieceFrom_letter (by decide) rfl rest
  · next plain =>
    rw [not_or] at plain
    split
    · next control =>
      split
      · next letter named =>
        obtain ⟨notCode, escaped⟩ := Piece.escaped?_controlLetter named
        rw [named, if_neg fun code => Bool.false_ne_true code.2]
        exact ⟨'\\', [letter], rfl, by decide, run_pieceFrom_letter notCode escaped rest⟩
      · next nameless =>
        rw [nameless, if_pos ⟨control, rfl⟩]
        exact ⟨'\\', _, rfl, by decide, run_pieceFrom_code control rest⟩
    · next printable =>
      rw [if_neg fun code => printable code.1]
      exact ⟨c, [], rfl, plain.1, run_pieceFrom_plain plain.2 printable rest⟩

theorem run_foldHeaded_pieces (chars rest : List Char) (pieces : List Piece) :
    (foldHeaded (· != '"') (fun parts c => (· :: parts) <$> pieceFrom c) pieces).run
        (chars.flatMap (escapeIn '"') ++ '"' :: rest) =
      .ok ((chars.map Piece.ofChar).reverse ++ pieces, '"' :: rest) := by
  induction chars generalizing pieces with
  | nil =>
      apply run_foldHeaded_of_ne
      intro head member
      cases member
      rfl
  | cons c chars inner =>
      obtain ⟨head, tail, shape, noQuote, read⟩ :=
        run_pieceFrom_escapeIn c (chars.flatMap (escapeIn '"') ++ '"' :: rest)
      have next : ((· :: pieces) <$> pieceFrom head).run
          (tail ++ (chars.flatMap (escapeIn '"') ++ '"' :: rest)) =
            .ok (Piece.ofChar c :: pieces, chars.flatMap (escapeIn '"') ++ '"' :: rest) := by
        change (pieceFrom head >>= fun piece => pure (piece :: pieces)).run _ = _
        rw [run_bind_ok read]
        rfl
      have inside : head != '"' := bne_iff_ne.mpr noQuote
      rw [List.flatMap_cons, shape, List.append_assoc, List.cons_append,
        run_foldHeaded_cons (· != '"') inside next, inner, List.map_cons, List.reverse_cons,
        List.append_assoc, List.singleton_append]

theorem run_stringBody (text : String) (rest : List Char) :
    stringBody.run (text.toList.flatMap (escapeIn '"') ++ '"' :: rest) =
      .ok (some text, rest) := by
  have pieces : (untilQuote pieceFrom).run (text.toList.flatMap (escapeIn '"') ++ '"' :: rest) =
      .ok (text.toList.map Piece.ofChar, rest) := by
    rw [untilQuote, run_bind_ok (run_foldHeaded_pieces text.toList rest [])]
    change Except.ok (((text.toList.map Piece.ofChar).reverse ++ []).reverse, rest) = _
    rw [List.append_nil, List.reverse_reverse]
  rw [stringBody, run_bind_ok pieces, Piece.text?_map_ofChar, Option.map_some,
    String.ofList_toList]
  rfl

end TextReader

/-! ## Numerals -/

/-- Whether nothing comes next, or what goes on with a list or ends it. -/
def Ends (rest : List Char) : Prop :=
  ∀ c ∈ rest.head?, c = ',' ∨ c = ']' ∨ c = '\x7d'

theorem ends_nil : Ends [] := by
  intro c first
  cases first

theorem Ends.off
    {rest : List Char} (ends : Ends rest)
    {inClass : Char → Bool}
    (off : inClass ',' = false ∧ inClass ']' = false ∧ inClass '\x7d' = false) :
    ∀ c ∈ rest.head?, inClass c = false := by
  intro c member
  rcases ends c member with rfl | rfl | rfl
  · exact off.1
  · exact off.2.1
  · exact off.2.2

namespace Numeral

theorem le_ofDigitChars (digits : List Char) (start : Nat) :
    start ≤ Nat.ofDigitChars 10 digits start := by
  induction digits generalizing start with
  | nil =>
      exact Nat.le_of_eq Nat.ofDigitChars_nil.symm
  | cons digit rest inner =>
      rw [Nat.ofDigitChars_cons]
      exact Nat.le_trans (by omega) (inner _)

/-- All digits are appended if the number of all of them fits. -/
theorem appendDigits_eq
    {digits : List Char} {start : Nat}
    (fits : Nat.ofDigitChars 10 digits start < Nat.pow 2 64) :
    appendDigits start digits = (Nat.ofDigitChars 10 digits start, []) := by
  induction digits generalizing start with
  | nil =>
      rw [appendDigits, Nat.ofDigitChars_nil]
  | cons digit rest inner =>
      have next : start * 10 + digitValue digit = 10 * start + (digit.toNat - '0'.toNat) := by
        rw [digitValue, Nat.mul_comm]
      rw [Nat.ofDigitChars_cons, ← next] at fits ⊢
      have small := Nat.lt_of_le_of_lt (le_ofDigitChars rest _) fits
      rw [appendDigits, if_pos small, inner fits]

theorem value?_toDigits
    {negative : Bool} {magnitude : Nat} {value : Int}
    (same : value = if negative then -(magnitude : Int) else magnitude)
    (nonzero : negative → magnitude ≠ 0)
    (fits : FitsWord value) :
    value? ⟨negative, Nat.toDigits 10 magnitude, none, none⟩ = some (.integer value fits) := by
  have bounds := fits
  rw [FitsWord, same] at bounds
  have small : Nat.ofDigitChars 10 (Nat.toDigits 10 magnitude) 0 < Nat.pow 2 64 := by
    rw [Nat.ofDigitChars_ten_toDigits]
    change magnitude < 18446744073709551616
    split at bounds <;> omega
  have appended := appendDigits_eq small
  rw [Nat.ofDigitChars_ten_toDigits] at appended
  have noMinusZero : ¬ (negative ∧ magnitude = 0) := fun zero => nonzero zero.1 zero.2
  subst same
  rw [value?, appended]
  exact dif_pos ⟨fits, noMinusZero⟩

end Numeral

/-- A number does not begin with a zero, unless it is zero. -/
theorem exists_toDigits (magnitude : Nat) :
    ∃ first others, Nat.toDigits 10 magnitude = first :: others ∧ first.isDigit ∧
      (magnitude ≠ 0 → first ≠ '0') := by
  induction magnitude using Nat.strongRecOn with
  | ind magnitude inner =>
      rw [Nat.toDigits_eq_if (by decide)]
      split
      · next small =>
        refine ⟨Nat.digitChar magnitude, [], rfl, ?_, ?_⟩
        · rw [Nat.isDigit_digitChar]
          exact decide_eq_true small
        · intro positive
          rwa [Ne, Nat.digitChar_eq_zero]
      · next large =>
        obtain ⟨first, others, shape, digit, noZero⟩ := inner (magnitude / 10) (by omega)
        rw [shape]
        exact ⟨first, others ++ [_], rfl, digit, fun _ => noZero (by omega)⟩

namespace TextReader

theorem run_digits
    {run rest : List Char}
    (nonempty : run ≠ [])
    (every : run.all Char.isDigit)
    (stops : ∀ c ∈ rest.head?, c.isDigit = false)
    (atEnd : Cause) :
    (digits atEnd).run (run ++ rest) = .ok (run, rest) := by
  have taken : (takeWhile Char.isDigit : TextReader (List Char)).run (run ++ rest) =
      .ok (run, rest) := by
    rw [run_takeWhile, (takeWhile_of_all every stops).1, (takeWhile_of_all every stops).2]
  rw [digits, run_bind_ok taken, if_neg nonempty]
  rfl

theorem run_wholeDigits
    {rest : List Char} (ends : Ends rest) (magnitude : Nat) (atEnd : Cause) :
    (wholeDigits atEnd).run (Nat.toDigits 10 magnitude ++ rest) =
      .ok (Nat.toDigits 10 magnitude, rest) := by
  have noDigit : ∀ c ∈ rest.head?, c.isDigit = false := ends.off ⟨rfl, rfl, rfl⟩
  by_cases zero : magnitude = 0
  · rw [zero, Nat.toDigits_zero, List.singleton_append, wholeDigits,
      run_bind_ok (run_accept_self '0' rest), if_pos rfl, run_bind_ok (run_next_of_ne noDigit)]
    rfl
  · have noZero : ∀ c ∈ (Nat.toDigits 10 magnitude ++ rest).head?, (c == '0') = false := by
      obtain ⟨first, others, shape, _, notZero⟩ := exists_toDigits magnitude
      rw [shape]
      intro c member
      cases member
      exact beq_eq_false_iff_ne.mpr (notZero zero)
    have every : (Nat.toDigits 10 magnitude).all Char.isDigit :=
      List.all_eq_true.mpr fun _ => Nat.isDigit_of_mem_toDigits (by decide) (by decide)
    rw [wholeDigits, run_bind_ok (run_accept_of_ne noZero), if_neg Bool.false_ne_true,
      run_digits Nat.toDigits_ne_nil every noDigit]

/-- The digits of a numeral without fraction and exponent. -/
def signedDigits (negative : Bool) (magnitude : Nat) : List Char :=
  if negative then '-' :: Nat.toDigits 10 magnitude else Nat.toDigits 10 magnitude

theorem run_numeral
    {rest : List Char} (ends : Ends rest) (negative : Bool) (magnitude : Nat) (atEnd : Cause) :
    (numeral atEnd).run (signedDigits negative magnitude ++ rest) =
      .ok (⟨negative, Nat.toDigits 10 magnitude, none, none⟩, rest) := by
  have sign : (accept (· == '-') : TextReader Bool).run (signedDigits negative magnitude ++ rest) =
      .ok (negative, Nat.toDigits 10 magnitude ++ rest) := by
    cases negative with
    | true =>
        rfl
    | false =>
        apply run_accept_of_ne
        obtain ⟨first, others, shape, digit, _⟩ := exists_toDigits magnitude
        rw [signedDigits, if_neg Bool.false_ne_true, shape]
        intro c member
        cases member
        rw [beq_eq_false_iff_ne]
        intro same
        rw [same] at digit
        cases digit
  have noPoint : ∀ c ∈ rest.head?, (c == '.') = false := ends.off ⟨rfl, rfl, rfl⟩
  have noExponent : ∀ c ∈ rest.head?, (c == 'e' || c == 'E') = false := ends.off ⟨rfl, rfl, rfl⟩
  rw [numeral, run_bind_ok sign, run_bind_ok (run_wholeDigits ends magnitude _),
    run_bind_ok (run_accept_of_ne noPoint), if_neg Bool.false_ne_true,
    run_bind_ok (run_pure none rest), run_bind_ok (run_accept_of_ne noExponent)]
  rfl

/-! ## Lists -/

variable {α : Type} {reader : TextReader α} {text : String} {value : α}

/-- Whether characters begin with one that is no blank and does not end a list. -/
def Starts (chars : List Char) : Prop :=
  ∃ head tail, chars = head :: tail ∧ isJsonBlank head = false ∧ head ≠ ']' ∧ head ≠ '\x7d'

theorem Starts.append {front : List Char} (starts : Starts front) (rest : List Char) :
    Starts (front ++ rest) := by
  obtain ⟨head, tail, shape, off⟩ := starts
  exact ⟨head, tail ++ rest, by rw [shape, List.cons_append], off⟩

theorem Starts.noBlank {chars : List Char} (starts : Starts chars) :
    ∀ c ∈ chars.head?, isJsonBlank c = false := by
  obtain ⟨head, tail, shape, notBlank, _⟩ := starts
  rw [shape]
  intro c member
  cases member
  exact notBlank

/-- Whether a reader takes just a text in front of what may follow it. -/
structure Reads (reader : TextReader α) (text : String) (value : α) : Prop where
  starts : Starts text.toList
  run : ∀ ⦃rest⦄, Ends rest → reader.run (text.toList ++ rest) = .ok (value, rest)

theorem run_blanks_of_ne
    {input : List Char} (off : ∀ c ∈ input.head?, isJsonBlank c = false) :
    blanks.run input = .ok ((), input) := by
  have kept : ([] ++ input).dropWhile isJsonBlank = input := (takeWhile_of_all rfl off).2
  rw [List.nil_append] at kept
  rw [blanks, run_bind_ok (run_takeWhile isJsonBlank input), kept]
  rfl

theorem Reads.run_padded
    {rest : List Char} (reads : Reads reader text value) (ends : Ends rest) :
    (padded reader).run (text.toList ++ rest) = .ok (value, rest) := by
  rw [padded, run_bind_ok (run_blanks_of_ne (reads.starts.append rest).noBlank),
    run_bind_ok (reads.run ends), run_bind_ok (run_blanks_of_ne (ends.off ⟨rfl, rfl, rfl⟩))]
  rfl

theorem Reads.starts_intercalate {first : String} (reads : Reads reader first value)
    (others : List String) :
    Starts (",".intercalate (first :: others)).toList := by
  cases others with
  | nil =>
      rw [String.intercalate_singleton]
      exact reads.starts
  | cons second others =>
      rw [String.intercalate_cons_cons, String.toList_append, String.toList_append,
        List.append_assoc]
      exact reads.starts.append _

/-- Whether a character ends a list. -/
def Closes (close : Char) : Prop :=
  close = ']' ∨ close = '\x7d'

theorem Closes.ends {close : Char} (closes : Closes close) (rest : List Char) :
    Ends (close :: rest) := by
  intro c member
  cases member
  exact Or.inr closes

theorem run_separated_padded
    {close : Char} (closes : Closes close)
    {first : String} {others : List String} {values : List α}
    (each : List.Forall₂ (Reads reader) (first :: others) values)
    (rest : List Char) :
    (separated (· == ',') (padded reader)).run
        ((",".intercalate (first :: others)).toList ++ close :: rest) =
      .ok (values, close :: rest) := by
  induction others generalizing first values with
  | nil =>
      rcases each with _ | ⟨reads, ⟨⟩⟩
      have noComma : ∀ c ∈ (close :: rest).head?, (c == ',') = false := by
        intro c member
        cases member
        rcases closes with rfl | rfl <;> rfl
      rw [String.intercalate_singleton, separated,
        run_bind_ok (reads.run_padded (closes.ends rest)), run_bind, run_separatedItems,
        run_bind_ok (run_accept_of_ne noComma)]
      rfl
  | cons second others inner =>
      rcases each with _ | ⟨reads, each⟩
      have behind := inner each
      have comma : ∀ after, Ends (',' :: after) := by
        intro after c member
        cases member
        exact Or.inl rfl
      have shape : (",".intercalate (first :: second :: others)).toList ++ close :: rest =
          first.toList ++
            ',' :: ((",".intercalate (second :: others)).toList ++ close :: rest) := by
        rw [String.intercalate_cons_cons, String.toList_append, String.toList_append,
          List.append_assoc, List.append_assoc]
        rfl
      rw [shape, separated, run_bind_ok (reads.run_padded (comma _)), run_bind,
        run_separatedItems_cons rfl, behind]
      rfl

theorem run_listed
    {close : Char} (closes : Closes close) (construct : Construct)
    {texts : List String} {values : List α}
    (each : List.Forall₂ (Reads reader) texts values)
    (rest : List Char) :
    (listed close construct reader).run ((",".intercalate texts).toList ++ close :: rest) =
      .ok (values, rest) := by
  cases each with
  | nil =>
      have noBlank : ∀ c ∈ (close :: rest).head?, isJsonBlank c = false := by
        intro c member
        cases member
        rcases closes with rfl | rfl <;> rfl
      have shape : (",".intercalate []).toList ++ close :: rest = close :: rest := by
        rw [String.intercalate_nil]
        rfl
      rw [shape, listed, run_bind_ok (run_blanks_of_ne noBlank),
        run_bind_ok (run_accept_self close rest)]
      rfl
  | @cons first value others values reads each =>
      have starts := (reads.starts_intercalate others).append (close :: rest)
      have items := run_separated_padded closes (.cons reads each) rest
      have notClosed : ∀ c ∈ ((",".intercalate (first :: others)).toList ++ close :: rest).head?,
          (c == close) = false := by
        obtain ⟨head, tail, shape, _, noBracket, noBrace⟩ := starts
        rw [shape]
        intro c member
        cases member
        rw [beq_eq_false_iff_ne]
        rcases closes with rfl | rfl
        · exact noBracket
        · exact noBrace
      have occupied :
          ((",".intercalate (first :: others)).toList ++ close :: rest).isEmpty = false := by
        obtain ⟨head, tail, shape, _⟩ := starts
        rw [shape]
        rfl
      rw [listed, run_bind_ok (run_blanks_of_ne starts.noBlank),
        run_bind_ok (run_accept_of_ne notClosed), if_neg Bool.false_ne_true,
        run_bind_ok (run_remaining _), occupied, if_neg Bool.false_ne_true, run_bind_ok items,
        run_bind_ok (run_expect_self close _ _ rest)]
      rfl

theorem length_le_intercalate
    {separator : String} {texts : List String} {text : String} (member : text ∈ texts) :
    text.length ≤ (separator.intercalate texts).length := by
  induction texts with
  | nil =>
      cases member
  | cons first others inner =>
      cases others with
      | nil =>
          have same : text = separator.intercalate [first] := by
            rw [List.mem_singleton.mp member, String.intercalate_singleton]
          exact Nat.le_of_eq (congrArg String.length same)
      | cons second others =>
          rw [String.intercalate_cons_cons, String.length_append, String.length_append]
          rcases List.mem_cons.mp member with rfl | later
          · omega
          · have bound := inner later
            omega

end TextReader

/-! ## Documents -/

namespace Value

theorem itemTexts_eq_map (items : List Value) : itemTexts items = items.map text := by
  induction items with
  | nil =>
      rfl
  | cons item rest inner =>
      rw [itemTexts, inner, List.map_cons]

/-- The text of a member of an object. -/
def memberText (member : String × Value) : String :=
  doubleQuoted member.1 ++ ":" ++ member.2.text

theorem memberTexts_eq_map (members : List (String × Value)) :
    memberTexts members = members.map memberText := by
  induction members with
  | nil =>
      rfl
  | cons member rest inner =>
      rw [memberTexts, inner, List.map_cons, memberText]

end Value

namespace Written

theorem starts_doubleQuoted (text : String) : Starts (doubleQuoted text).toList := by
  rw [doubleQuoted, String.toList_ofList]
  exact ⟨'"', _, rfl, rfl, by decide, by decide⟩

theorem toList_doubleQuoted (text : String) :
    (doubleQuoted text).toList = '"' :: (text.toList.flatMap (escapeIn '"') ++ ['"']) := by
  rw [doubleQuoted, String.toList_ofList]
  rfl

theorem reads_string (text : String) (depth : Nat) :
    Reads (part (depth + 1)) (doubleQuoted text) (string (some text)) := by
  refine ⟨starts_doubleQuoted text, fun rest _ => ?_⟩
  rw [toList_doubleQuoted, List.cons_append, List.append_assoc, List.singleton_append]
  change (skip 1 >>= fun _ => stringBody >>= fun value => pure (string value)).run _ = _
  rw [run_bind_ok (run_skip 1 _), List.drop_succ_cons, List.drop_zero,
    run_bind_ok (run_stringBody text rest)]
  rfl

theorem run_part_numeral
    {head : Char} (begins : beginsNumeral head) (tail : List Char) (depth : Nat) :
    (part (depth + 1)).run (head :: tail) =
      (numeral .numeral >>= fun digits => pure (number digits.value?)).run (head :: tail) := by
  rw [part, run_bind_ok (run_remaining _)]
  split
  · next same => cases same
  · next same => cases same; cases begins
  · next same => cases same; cases begins
  · next same => cases same; cases begins
  · next same => cases same; cases begins
  · next same => cases same; cases begins
  · next same => cases same; cases begins
  · next same =>
    cases same
    rw [if_pos begins]

theorem starts_of_beginsNumeral {head : Char} (begins : beginsNumeral head) (tail : List Char) :
    Starts (head :: tail) := by
  have off : ∀ c, beginsNumeral c = false → head ≠ c := by
    intro c notBegins same
    rw [same, notBegins] at begins
    cases begins
  refine ⟨head, tail, rfl, ?_, off _ rfl, off _ rfl⟩
  rw [isJsonBlank, beq_eq_false_iff_ne.mpr (off ' ' rfl), beq_eq_false_iff_ne.mpr (off '\t' rfl),
    beq_eq_false_iff_ne.mpr (off '\n' rfl), beq_eq_false_iff_ne.mpr (off '\r' rfl)]
  rfl

theorem reads_null (depth : Nat) : Reads (part (depth + 1)) "null" null where
  starts := ⟨'n', _, rfl, rfl, by decide, by decide⟩
  run _ _ := rfl

theorem reads_bool (truth : Bool) (depth : Nat) :
    Reads (part (depth + 1)) (if truth then "true" else "false") (bool truth) := by
  cases truth with
  | false =>
      exact ⟨⟨'f', _, rfl, rfl, by decide, by decide⟩, fun _ _ => rfl⟩
  | true =>
      exact ⟨⟨'t', _, rfl, rfl, by decide, by decide⟩, fun _ _ => rfl⟩

theorem reads_integer (value : Int) (fits : FitsWord value) (depth : Nat) :
    Reads (part (depth + 1)) (toString value) (number (some (.integer value fits))) := by
  have written : ∃ negative magnitude, (toString value).toList = signedDigits negative magnitude ∧
      value = (if negative then -(magnitude : Int) else magnitude) ∧
      (negative → magnitude ≠ 0) := by
    cases value with
    | ofNat magnitude =>
        exact ⟨false, magnitude, Nat.toList_repr, rfl, nofun⟩
    | negSucc magnitude =>
        refine ⟨true, magnitude + 1, ?_, rfl, fun _ => Nat.succ_ne_zero magnitude⟩
        change ("-" ++ Nat.repr (magnitude + 1)).toList = _
        rw [String.toList_append, Nat.toList_repr]
        rfl
  obtain ⟨negative, magnitude, shape, same, nonzero⟩ := written
  obtain ⟨head, tail, begun, begins⟩ :
      ∃ head tail, signedDigits negative magnitude = head :: tail ∧ beginsNumeral head := by
    obtain ⟨first, others, digits, digit, _⟩ := exists_toDigits magnitude
    rw [signedDigits, digits]
    cases negative with
    | true =>
        exact ⟨'-', first :: others, rfl, rfl⟩
    | false =>
        exact ⟨first, others, rfl, Bool.or_eq_true_iff.mpr (Or.inr digit)⟩
  constructor
  · rw [shape, begun]
    exact starts_of_beginsNumeral begins tail
  · intro rest ends
    have digits := run_numeral ends negative magnitude .numeral
    rw [begun, List.cons_append] at digits
    rw [shape, begun, List.cons_append, run_part_numeral begins, run_bind_ok digits,
      Numeral.value?_toDigits same nonzero fits]
    rfl

theorem reads_array
    {items : List Value} {depth : Nat}
    (each : ∀ item ∈ items, Reads (part depth) item.text (ofValue item)) :
    Reads (part (depth + 1)) (Value.array items).text (ofValue (.array items)) := by
  have texts : List.Forall₂ (Reads (part depth)) (items.map Value.text) (items.map ofValue) := by
    rw [List.forall₂_map_left_iff, List.forall₂_map_right_iff, List.forall₂_same]
    exact each
  rw [Value.text, ofValue, Value.itemTexts_eq_map, ofItems_eq_map]
  constructor
  · rw [String.toList_append, String.toList_append, List.append_assoc]
    exact ⟨'[', _, rfl, rfl, by decide, by decide⟩
  · intro rest _
    rw [String.toList_append, String.toList_append, List.append_assoc, List.append_assoc]
    change (skip 1 >>= fun _ => listed ']' .list (part depth) >>= fun values =>
      pure (array values)).run ('[' :: ((",".intercalate (items.map Value.text)).toList ++
        ']' :: rest)) = _
    rw [run_bind_ok (run_skip 1 _), List.drop_succ_cons, List.drop_zero,
      run_bind_ok (run_listed (Or.inl rfl) .list texts rest)]
    rfl

theorem reads_member
    {reader : TextReader Written} {name : String} {value : Value}
    (reads : Reads reader value.text (ofValue value)) :
    Reads (member reader) (Value.memberText (name, value)) (ofMember (name, value)) := by
  constructor
  · rw [Value.memberText, String.toList_append, String.toList_append, List.append_assoc]
    exact (starts_doubleQuoted name).append _
  · intro rest ends
    have noBlank : ∀ c ∈ (':' :: (value.text.toList ++ rest)).head?, isJsonBlank c = false := by
      intro c member
      cases member
      rfl
    have shape : (Value.memberText (name, value)).toList ++ rest =
        '"' :: (name.toList.flatMap (escapeIn '"') ++
          '"' :: ':' :: (value.text.toList ++ rest)) := by
      rw [Value.memberText, String.toList_append, String.toList_append, toList_doubleQuoted,
        List.append_assoc, List.append_assoc, List.cons_append, List.append_assoc,
        List.singleton_append]
      rfl
    rw [shape, Written.member, run_bind_ok (run_expect_self _ _ _ _),
      run_bind_ok (run_stringBody name _), run_bind_ok (run_blanks_of_ne noBlank),
      run_bind_ok (run_expect_self _ _ _ _),
      run_bind_ok (run_blanks_of_ne (reads.starts.append rest).noBlank),
      run_bind_ok (reads.run ends)]
    rfl

theorem reads_object
    {members : List (String × Value)} {depth : Nat}
    (each : ∀ member ∈ members, Reads (part depth) member.2.text (ofValue member.2)) :
    Reads (part (depth + 1)) (Value.object members).text (ofValue (.object members)) := by
  have texts : List.Forall₂ (Reads (member (part depth))) (members.map Value.memberText)
      (members.map ofMember) := by
    rw [List.forall₂_map_left_iff, List.forall₂_map_right_iff, List.forall₂_same]
    exact fun field inside => reads_member (each field inside)
  rw [Value.text, ofValue, Value.memberTexts_eq_map, ofMembers_eq_map]
  constructor
  · rw [String.toList_append, String.toList_append, List.append_assoc]
    exact ⟨'\x7b', _, rfl, rfl, by decide, by decide⟩
  · intro rest _
    rw [String.toList_append, String.toList_append, List.append_assoc, List.append_assoc]
    change (skip 1 >>= fun _ => listed '\x7d' .object (member (part depth)) >>= fun values =>
      pure (object values)).run
        ('\x7b' :: ((",".intercalate (members.map Value.memberText)).toList ++ '\x7d' :: rest)) = _
    rw [run_bind_ok (run_skip 1 _), List.drop_succ_cons, List.drop_zero,
      run_bind_ok (run_listed (Or.inr rfl) .object texts rest)]
    rfl

/-- The text of a value without real numbers is read as the value's document. A text is longer than
those of the parts inside, so its length is enough for the levels of them all. -/
theorem reads_text
    {value : Value} (free : value.FloatFree)
    {depth : Nat} (bound : value.text.length ≤ depth) :
    Reads (part (depth + 1)) value.text (ofValue value) := by
  induction free generalizing depth with
  | null =>
      exact reads_null depth
  | bool truth =>
      exact reads_bool truth depth
  | integer value fits =>
      exact reads_integer value fits depth
  | string text =>
      exact reads_string text depth
  | @array items _ inner =>
      apply reads_array
      intro item member
      have inside : item.text.length ≤ (",".intercalate (items.map Value.text)).length :=
        length_le_intercalate (List.mem_map_of_mem member)
      have brackets : "[".length = 1 ∧ "]".length = 1 := ⟨rfl, rfl⟩
      rw [Value.text, Value.itemTexts_eq_map, String.length_append, String.length_append] at bound
      obtain ⟨less, rfl⟩ : ∃ less, depth = less + 1 := ⟨depth - 1, by omega⟩
      exact inner item member (by omega)
  | @object members _ inner =>
      apply reads_object
      intro field member
      have inside : (Value.memberText field).length ≤
          (",".intercalate (members.map Value.memberText)).length :=
        length_le_intercalate (List.mem_map_of_mem member)
      have braces : "\x7b".length = 1 ∧ "\x7d".length = 1 := ⟨rfl, rfl⟩
      rw [Value.memberText, String.length_append] at inside
      rw [Value.text, Value.memberTexts_eq_map, String.length_append, String.length_append] at bound
      obtain ⟨less, rfl⟩ : ∃ less, depth = less + 1 := ⟨depth - 1, by omega⟩
      exact inner field member (by omega)

theorem reads_anyPart {value : Value} (free : value.FloatFree) :
    Reads anyPart value.text (ofValue value) := by
  refine ⟨(reads_text free (Nat.le_refl _)).starts, fun rest ends => ?_⟩
  have enough : value.text.length ≤ (value.text.toList ++ rest).length := by
    rw [List.length_append, String.length_toList]
    exact Nat.le_add_right _ _
  exact (reads_text free enough).run ends

/-- A value without real numbers is read back as its document. -/
theorem read?_text {value : Value} (free : value.FloatFree) :
    read? value.text = some (ofValue value) := by
  have whole := (reads_anyPart free).run_padded ends_nil
  rw [List.append_nil] at whole
  rw [read?, Reader.value?, document, run_bind_ok whole]
  rfl

end Written

end TypeGraph.Json
