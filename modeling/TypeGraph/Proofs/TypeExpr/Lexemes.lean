import TypeGraph.Proofs.Text.Bytes
import TypeGraph.Proofs.TypeExpr.Lexicon

/-!
# Lexemes of a text

The lexemes of a text and the blanks between them take all of its bytes, and each lexeme has the
longest spelling at its place. A text without lexemes has a place at which no spelling begins, and
the text in front of that place has lexemes.
-/

namespace TypeGraph

open Text

/-! ## Bytes of blanks -/

/-- The bytes that may stand between tokens: blanks, tabs, and the ends of lines and of pages. -/
def skippedBytes : List UInt8 :=
  [0x20, 0x09, 0x0D, 0x0A, 0x0C]

theorem utf8EncodeChar_of_isSkipped {c : Char} (skipped : Scan.isSkipped c) :
    ∃ byte ∈ skippedBytes, String.utf8EncodeChar c = [byte] := by
  simp only [Scan.isSkipped, Bool.or_eq_true, beq_iff_eq] at skipped
  rcases skipped with (((rfl | rfl) | rfl) | rfl) | rfl
  · exact ⟨0x20, by decide, rfl⟩
  · exact ⟨0x09, by decide, rfl⟩
  · exact ⟨0x0D, by decide, rfl⟩
  · exact ⟨0x0A, by decide, rfl⟩
  · exact ⟨0x0C, by decide, rfl⟩

theorem utf8EncodeChar_of_not_isSkipped {c : Char} (notSkipped : ¬ Scan.isSkipped c) :
    ∃ byte others, String.utf8EncodeChar c = byte :: others ∧ byte ∉ skippedBytes := by
  have among : ∀ value < 256, UInt8.ofNat value ∈ skippedBytes →
      value ∈ [0x20, 0x09, 0x0D, 0x0A, 0x0C] := by
    decide +kernel
  have differs : ∀ other, Scan.isSkipped other → c.val.toNat ≠ other.val.toNat := by
    intro other skipped same
    exact notSkipped (Char.ext (UInt32.toNat_inj.mp same) ▸ skipped)
  have outside : c.val.toNat ∉ [0x20, 0x09, 0x0D, 0x0A, 0x0C] := by
    simp only [List.mem_cons, List.not_mem_nil, or_false, not_or]
    exact ⟨differs ' ' rfl, differs '\t' rfl, differs '\r' rfl, differs '\n' rfl,
      differs '\x0c' rfl⟩
  -- Characters of several bytes begin with a byte that is too great.
  have high : ∀ value < 256, 0x80 ≤ value → UInt8.ofNat value ∉ skippedBytes := by
    intro value small large member
    have known := among value small member
    simp only [List.mem_cons, List.not_mem_nil, or_false] at known
    omega
  unfold String.utf8EncodeChar
  dsimp only
  split
  · exact ⟨_, _, rfl, fun member => outside (among _ (by omega) member)⟩
  · split
    · exact ⟨_, _, rfl, high _ (by omega) (by omega)⟩
    · split
      · exact ⟨_, _, rfl, high _ (by omega) (by omega)⟩
      · exact ⟨_, _, rfl, high _ (by omega) (by omega)⟩

theorem getElem?_bytes
    {text : String} {before rest : List Char} {c : Char} {byte : UInt8} {others : List UInt8}
    (whole : text.toList = before ++ c :: rest)
    (encoded : String.utf8EncodeChar c = byte :: others) :
    (bytes text)[byteLength before]? = some byte := by
  rw [bytes_eq_flatMap, whole, List.flatMap_append, ← length_flatMap_utf8EncodeChar,
    List.getElem?_append_right (Nat.le_refl _), Nat.sub_self, List.flatMap_cons, encoded]
  rfl

/-! ## Texts with lexemes -/

/-- The bytes of a text between two positions. -/
def slice (text : String) (start stop : Nat) : List UInt8 :=
  ((bytes text).take stop).drop start

/-- Whether a token shows the bytes that it was cut out as. A string literal holds them without those
of its quotes. -/
def Token.Shows (cut : List UInt8) : Token → Prop
  | name text => bytes text = cut
  | string text => bytes text = cut.tail.dropLast
  | number numeral => bytes numeral = cut
  | symbol kind => kind.spelling.flatMap String.utf8EncodeChar = cut

/-- Whether the bytes of a lexeme are those of the longest spelling that begins where it starts. -/
def Lexeme.LongestIn (text : String) (lexeme : Lexeme) : Prop :=
  ∃ before spelling rest, text.toList = before ++ rest ∧ Longest rest spelling lexeme.token ∧
    lexeme.start = byteLength before ∧ lexeme.stop = byteLength before + byteLength spelling

theorem slice_eq_flatMap
    {text : String} {before spelling rest : List Char}
    (whole : text.toList = before ++ (spelling ++ rest)) :
    slice text (byteLength before) (byteLength before + byteLength spelling) =
      spelling.flatMap String.utf8EncodeChar := by
  have front : byteLength before + byteLength spelling =
      ((before ++ spelling).flatMap String.utf8EncodeChar).length := by
    rw [length_flatMap_utf8EncodeChar, byteLength_append]
  rw [slice, bytes_eq_flatMap, whole, ← List.append_assoc, List.flatMap_append, front,
    List.take_left, List.flatMap_append, ← length_flatMap_utf8EncodeChar, List.drop_left]

theorem Declared.shows
    {spelling : List Char} {token : Token} (declared : Declared spelling token) :
    token.Shows (spelling.flatMap String.utf8EncodeChar) := by
  have ofList : ∀ chars, bytes (String.ofList chars) = chars.flatMap String.utf8EncodeChar := by
    intro chars
    rw [bytes_eq_flatMap, String.toList_ofList]
  cases declared with
  | name _ =>
      exact ofList spelling
  | string member =>
      obtain ⟨quote, quotes, body, _, rfl⟩ := Lexicon.mem_stringLiteral.mp member
      obtain ⟨byte, encoded⟩ : ∃ byte, String.utf8EncodeChar quote = [byte] := by
        simp only [Scan.isQuote, Bool.or_eq_true, beq_iff_eq] at quotes
        rcases quotes with (rfl | rfl) | rfl <;> exact ⟨_, rfl⟩
      rw [Token.Shows, ofList, List.tail_cons, List.dropLast_concat, List.flatMap_cons,
        List.flatMap_append, List.flatMap_singleton, encoded, List.singleton_append, List.tail_cons,
        List.dropLast_concat]
  | number _ =>
      exact ofList spelling
  | symbol kind =>
      rfl

theorem Lexeme.longestIn_of_next?
    {text : String} {before rest : List Char} {scan : Scan}
    (whole : text.toList = before ++ rest)
    (scanned : Scan.next? rest = some scan) :
    LongestIn text
      ⟨scan.token, byteLength before, byteLength before + byteLength scan.spelling⟩ :=
  ⟨before, scan.spelling, rest, whole, (Scan.next?_eq_some_iff.mp scanned).1, rfl, rfl⟩

theorem Lexeme.LongestIn.shows {text : String} {lexeme : Lexeme} (longest : lexeme.LongestIn text) :
    lexeme.token.Shows (slice text lexeme.start lexeme.stop) := by
  obtain ⟨before, spelling, _, whole, inFront, start, stop⟩ := longest
  obtain ⟨rest, rfl⟩ := inFront.begins
  rw [start, stop, slice_eq_flatMap whole]
  exact inFront.declared.shows

/-- Whether lexemes and blanks take all bytes of a text from a position on. -/
structure Covers (text : String) (position : Nat) (lexemes : List Lexeme) : Prop where
  inside : ∀ lexeme ∈ lexemes,
    position ≤ lexeme.start ∧ lexeme.start < lexeme.stop ∧ lexeme.stop ≤ text.utf8ByteSize
  apart : lexemes.Pairwise fun first second => first.stop ≤ second.start
  between : ∀ index byte, position ≤ index → (bytes text)[index]? = some byte →
    (∀ lexeme ∈ lexemes, ¬ (lexeme.start ≤ index ∧ index < lexeme.stop)) → byte ∈ skippedBytes
  shows : ∀ lexeme ∈ lexemes, lexeme.token.Shows (slice text lexeme.start lexeme.stop)
  longest : ∀ lexeme ∈ lexemes, lexeme.LongestIn text

namespace Covers

variable {text : String} {before rest : List Char} {lexemes : List Lexeme}

theorem nil (whole : text.toList = before) : Covers text (byteLength before) [] where
  inside := List.forall_mem_nil _
  apart := List.Pairwise.nil
  between := by
    intro index byte behind found _
    have bound := (List.getElem?_eq_some_iff.mp found).1
    rw [bytes_eq_flatMap, length_flatMap_utf8EncodeChar, whole] at bound
    omega
  shows := List.forall_mem_nil _
  longest := List.forall_mem_nil _

theorem skip
    {c : Char}
    (whole : text.toList = before ++ c :: rest)
    (skipped : Scan.isSkipped c)
    (covers : Covers text (byteLength before + c.utf8Size) lexemes) :
    Covers text (byteLength before) lexemes where
  inside := by
    intro lexeme member
    have bounds := covers.inside lexeme member
    exact ⟨by omega, bounds.2⟩
  apart := covers.apart
  between := by
    intro index byte behind found outside
    obtain ⟨blank, isBlank, encoded⟩ := utf8EncodeChar_of_isSkipped skipped
    have size : c.utf8Size = 1 := by
      rw [← String.length_utf8EncodeChar, encoded]
      rfl
    by_cases first : index = byteLength before
    · rw [first, getElem?_bytes whole encoded] at found
      cases found
      exact isBlank
    · exact covers.between index byte (by omega) found outside
  shows := covers.shows
  longest := covers.longest

theorem cons
    {scan : Scan}
    (whole : text.toList = before ++ rest)
    (scanned : Scan.next? rest = some scan)
    (covers : Covers text (byteLength before + byteLength scan.spelling) lexemes) :
    Covers text (byteLength before)
      (⟨scan.token, byteLength before, byteLength before + byteLength scan.spelling⟩ ::
        lexemes) where
  inside := by
    have nonempty := byteLength_pos (Scan.spelling_ne_nil scanned)
    have size : text.utf8ByteSize =
        byteLength before + (byteLength scan.spelling + byteLength scan.rest) := by
      rw [← byteLength_toList, whole, byteLength_append, ← byteLength_append scan.spelling,
        Scan.spelling_append_rest scanned]
    rw [List.forall_mem_cons]
    refine ⟨⟨Nat.le_refl _, Nat.lt_add_of_pos_right nonempty, ?_⟩, ?_⟩
    · dsimp only
      omega
    · intro lexeme member
      have bounds := covers.inside lexeme member
      exact ⟨by omega, bounds.2⟩
  apart := by
    rw [List.pairwise_cons]
    exact ⟨fun lexeme member => (covers.inside lexeme member).1, covers.apart⟩
  between := by
    intro index byte behind found outside
    rw [List.forall_mem_cons] at outside
    have later := outside.1
    dsimp only at later
    exact covers.between index byte (by omega) found outside.2
  shows := by
    rw [List.forall_mem_cons]
    exact ⟨(Lexeme.longestIn_of_next? whole scanned).shows, covers.shows⟩
  longest := by
    rw [List.forall_mem_cons]
    exact ⟨Lexeme.longestIn_of_next? whole scanned, covers.longest⟩

theorem of_allFrom
    (whole : text.toList = before ++ rest)
    (ran : Lexeme.allFrom (byteLength before) rest = .ok lexemes) :
    Covers text (byteLength before) lexemes := by
  generalize reached : byteLength before = position at ran ⊢
  fun_induction Lexeme.allFrom position rest generalizing before lexemes with
  | case1 =>
      cases ran
      rw [List.append_nil] at whole
      rw [← reached]
      exact nil whole
  | case2 position c rest skipped inner =>
      have further : text.toList = before ++ [c] ++ rest := by
        rw [whole, List.append_assoc, List.singleton_append]
      have next : byteLength (before ++ [c]) = byteLength before + c.utf8Size := by
        rw [byteLength_append]
        rfl
      have covers := inner further (by rw [next, reached]) ran
      rw [← reached] at covers ⊢
      exact skip whole skipped covers
  | case3 =>
      cases ran
  | case4 position c rest notSkipped scan scanned stop =>
      rename_i inner
      have further : text.toList = before ++ scan.spelling ++ scan.rest := by
        rw [whole, List.append_assoc, Scan.spelling_append_rest scanned]
      obtain ⟨others, later, rfl⟩ := exists_of_map_eq_ok ran
      have covers := inner further (by rw [byteLength_append, reached]) later
      subst reached
      exact cons whole scanned covers

end Covers

/-! ## Texts without lexemes -/

/-- Whether a text has lexemes in front of a position and no spelling behind it. -/
def StopsAt (text : String) (position : Nat) : Prop :=
  ∃ before rest, text.toList = before ++ rest ∧ byteLength before = position ∧
    (∃ lexemes, Lexeme.ofTypeText (String.ofList before) = .ok lexemes) ∧
    (∃ byte, (bytes text)[position]? = some byte ∧ byte ∉ skippedBytes) ∧
    ∀ spelling token, Declared spelling token → ¬ spelling <+: rest

/-- Where no lexeme is found, lexemes are found in the text in front of it. -/
theorem Lexeme.exists_front_of_allFrom
    {start position : Nat} {text : List Char} (failed : allFrom start text = .error position) :
    ∃ front c rest, text = front ++ c :: rest ∧ start + byteLength front = position ∧
      (∃ lexemes, allFrom start front = .ok lexemes) ∧ ¬ Scan.isSkipped c ∧
      Scan.next? (c :: rest) = none := by
  fun_induction allFrom start text with
  | case1 =>
      cases failed
  | case2 start c rest skipped inner =>
      obtain ⟨front, stopped, behind, rfl, reached, ⟨lexemes, ran⟩, ends⟩ := inner failed
      refine ⟨c :: front, stopped, behind, rfl, ?_, ⟨lexemes, ?_⟩, ends⟩
      · rw [← reached, Nat.add_assoc]
        rfl
      · rw [allFrom, if_pos skipped, ran]
  | case3 start c rest notSkipped missing =>
      cases failed
      refine ⟨[], c, rest, rfl, rfl, ⟨[], ?_⟩, notSkipped, missing⟩
      rw [allFrom]
  | case4 start c rest notSkipped scan scanned stop inner =>
      have failedLater : allFrom stop scan.rest = .error position := by
        cases later : allFrom stop scan.rest with
        | error position =>
            rw [later] at failed
            cases failed
            rfl
        | ok lexemes =>
            rw [later] at failed
            cases failed
      obtain ⟨front, stopped, behind, same, reached, ⟨lexemes, ran⟩, ends⟩ := inner failedLater
      have parts := Scan.spelling_append_rest scanned
      have shorter : scan.spelling ++ front <+: c :: rest := by
        refine ⟨stopped :: behind, ?_⟩
        rw [← parts, same, List.append_assoc]
      have cut : Scan.next? (scan.spelling ++ front) = some ⟨scan.token, scan.spelling, front⟩ := by
        rw [Scan.next?_eq_some_iff] at scanned ⊢
        exact ⟨scanned.1.inFront (List.prefix_append _ _) shorter, rfl⟩
      refine ⟨scan.spelling ++ front, stopped, behind, ?_, ?_,
        ⟨⟨scan.token, start, stop⟩ :: lexemes, ?_⟩, ends⟩
      · rw [← parts, same, List.append_assoc]
      · rw [← reached, byteLength_append, Nat.add_assoc]
      · rw [allFrom_of_next? cut, ran]
        rfl

/-- A text is covered by its lexemes and by blanks, or it has lexemes up to the position that is
reported and no spelling there. -/
theorem lexemes_cover (text : String) :
    match Lexeme.ofTypeText text with
    | .ok lexemes => Covers text 0 lexemes
    | .error error =>
      ∃ position, error = .invalidCharacter text position ∧ StopsAt text position := by
  have whole : text.toList = [] ++ text.toList := rfl
  cases ran : Lexeme.all text with
  | ok lexemes =>
      rw [Lexeme.ofTypeText, ran]
      exact Covers.of_allFrom whole ran
  | error position =>
      rw [Lexeme.ofTypeText, ran]
      obtain ⟨front, c, rest, same, reached, ⟨lexemes, inFront⟩, notSkipped, missing⟩ :=
        Lexeme.exists_front_of_allFrom ran
      rw [Nat.zero_add] at reached
      obtain ⟨byte, others, encoded, notBlank⟩ := utf8EncodeChar_of_not_isSkipped notSkipped
      refine ⟨position, rfl, front, c :: rest, same, reached, ⟨lexemes, ?_⟩, ⟨byte, ?_, notBlank⟩,
        Scan.next?_eq_none_iff.mp missing⟩
      · rw [Lexeme.ofTypeText, Lexeme.all, String.toList_ofList, inFront]
      · rw [← reached]
        exact getElem?_bytes same encoded

end TypeGraph
