import Mathlib.Computability.Language
import TypeGraph.Proofs.TypeExpr.Spelling

/-!
# Spellings of tokens

The spellings of names, string literals and numerals as languages, apart from any way to scan for
them. The token in front of a text has the longest of the spellings that the text begins with, and a
text has no token in front of it if it begins with none.
-/

namespace TypeGraph

open scoped Computability

/-! ## Languages of spellings -/

namespace Lexicon

/-- The texts of one character of a class. -/
def single (inClass : Char → Bool) : Language Char :=
  {text | ∃ c, inClass c ∧ text = [c]}

def name : Language Char :=
  single Scan.isNameStart * (single Scan.isNamePart)∗

def digits : Language Char :=
  single Char.isDigit * (single Char.isDigit)∗

def numeral : Language Char :=
  digits * (1 + single (· == '.') * digits)

/-- The characters that stand for themselves between two quotes. The end of a line does so between
backquotes only. -/
def plain (quote c : Char) : Bool :=
  c != quote && c != '\\' && (c != '\n' || quote == '\x60')

/-- What may stand between two quotes. Any character but the end of a line may follow a backslash. -/
def quotable (quote : Char) : Language Char :=
  (single (plain quote) + single (· == '\\') * single (· != '\n'))∗

def quoted (quote : Char) : Language Char :=
  single (· == quote) * quotable quote * single (· == quote)

def stringLiteral : Language Char :=
  quoted '\'' + quoted '"' + quoted '\x60'

theorem mem_single_mul {inClass : Char → Bool} {language : Language Char} {text : List Char} :
    text ∈ single inClass * language ↔
      ∃ c rest, text = c :: rest ∧ inClass c ∧ rest ∈ language := by
  rw [Language.mem_mul]
  constructor
  · rintro ⟨_, ⟨c, member, rfl⟩, rest, inside, rfl⟩
    exact ⟨c, rest, rfl, member, inside⟩
  · rintro ⟨c, rest, rfl, member, inside⟩
    exact ⟨[c], ⟨c, member, rfl⟩, rest, inside, rfl⟩

/-- What is repeated is nothing or begins with one copy. -/
theorem mem_kstar_iff {language : Language Char} {text : List Char} :
    text ∈ language∗ ↔ text = [] ∨ text ∈ language * language∗ := by
  rw [← Language.mem_one, ← Language.mem_add, Language.one_add_self_mul_kstar_eq_kstar]

theorem mem_kstar_single {inClass : Char → Bool} {text : List Char} :
    text ∈ (single inClass)∗ ↔ text.all inClass := by
  induction text with
  | nil =>
      simp [Language.nil_mem_kstar]
  | cons c rest inner =>
      rw [mem_kstar_iff, mem_single_mul, List.all_cons, Bool.and_eq_true, ← inner]
      constructor
      · rintro (empty | ⟨_, _, same, member, inside⟩)
        · cases empty
        · cases same
          exact ⟨member, inside⟩
      · intro ⟨member, inside⟩
        exact Or.inr ⟨c, rest, rfl, member, inside⟩

theorem mem_name {text : List Char} :
    text ∈ name ↔
      ∃ c rest, text = c :: rest ∧ Scan.isNameStart c ∧ rest.all Scan.isNamePart := by
  rw [name, mem_single_mul]
  simp only [mem_kstar_single]

theorem mem_digits {text : List Char} : text ∈ digits ↔ text ≠ [] ∧ text.all Char.isDigit := by
  rw [digits, mem_single_mul]
  cases text with
  | nil =>
      simp
  | cons c rest =>
      simp [mem_kstar_single]

theorem mem_numeral {text : List Char} : text ∈ numeral ↔ IsNumeral text := by
  rw [numeral, Language.mem_mul]
  constructor
  · rintro ⟨whole, digitsWhole, behind, member, rfl⟩
    rw [mem_digits] at digitsWhole
    rw [Language.mem_add, Language.mem_one, mem_single_mul] at member
    rcases member with rfl | ⟨c, fraction, rfl, point, digitsBehind⟩
    · rw [List.append_nil]
      exact .whole digitsWhole.1 digitsWhole.2
    · rw [mem_digits] at digitsBehind
      rw [beq_iff_eq.mp point]
      exact .point digitsWhole.1 digitsWhole.2 digitsBehind.1 digitsBehind.2
  · intro numeral
    cases numeral with
    | whole nonempty every =>
        refine ⟨text, mem_digits.mpr ⟨nonempty, every⟩, [], ?_, List.append_nil text⟩
        rw [Language.mem_add, Language.mem_one]
        exact Or.inl rfl
    | @point whole fraction nonempty every nonemptyBehind everyBehind =>
        refine ⟨whole, mem_digits.mpr ⟨nonempty, every⟩, '.' :: fraction, ?_, rfl⟩
        rw [Language.mem_add, mem_single_mul]
        exact Or.inr ⟨'.', fraction, rfl, rfl, mem_digits.mpr ⟨nonemptyBehind, everyBehind⟩⟩

theorem cons_mem_quotable
    {quote c : Char} {rest : List Char} (stands : plain quote c) (inside : rest ∈ quotable quote) :
    c :: rest ∈ quotable quote := by
  have first : [c] ∈ single (plain quote) + single (· == '\\') * single (· != '\n') :=
    (Language.mem_add _ _ _).mpr (Or.inl ⟨c, stands, rfl⟩)
  exact mem_kstar_iff.mpr (Or.inr (Language.append_mem_mul first inside))

theorem escaped_cons_mem_quotable
    {quote escaped : Char} {rest : List Char}
    (notEnd : escaped ≠ '\n') (inside : rest ∈ quotable quote) :
    '\\' :: escaped :: rest ∈ quotable quote := by
  have first : ['\\', escaped] ∈
      single (plain quote) + single (· == '\\') * single (· != '\n') := by
    rw [Language.mem_add, mem_single_mul]
    exact Or.inr ⟨'\\', [escaped], rfl, rfl, escaped, bne_iff_ne.mpr notEnd, rfl⟩
  exact mem_kstar_iff.mpr (Or.inr (Language.append_mem_mul first inside))

theorem mem_quoted {quote : Char} {text : List Char} :
    text ∈ quoted quote ↔ ∃ body ∈ quotable quote, text = quote :: (body ++ [quote]) := by
  rw [quoted, mul_assoc, mem_single_mul]
  constructor
  · rintro ⟨_, _, rfl, same, inside⟩
    rw [beq_iff_eq.mp same]
    obtain ⟨body, member, _, ⟨_, sameFinal, rfl⟩, rfl⟩ := Language.mem_mul.mp inside
    rw [beq_iff_eq.mp sameFinal]
    exact ⟨body, member, rfl⟩
  · rintro ⟨body, member, rfl⟩
    exact ⟨quote, body ++ [quote], rfl, beq_self_eq_true quote,
      Language.append_mem_mul member ⟨quote, beq_self_eq_true quote, rfl⟩⟩

theorem mem_stringLiteral {text : List Char} :
    text ∈ stringLiteral ↔
      ∃ quote, Scan.isQuote quote ∧ ∃ body ∈ quotable quote, text = quote :: (body ++ [quote]) := by
  simp only [stringLiteral, Language.mem_add, mem_quoted, Scan.isQuote, Bool.or_eq_true, beq_iff_eq]
  constructor
  · rintro ((body | body) | body)
    · exact ⟨'\'', Or.inl (Or.inl rfl), body⟩
    · exact ⟨'"', Or.inl (Or.inr rfl), body⟩
    · exact ⟨'\x60', Or.inr rfl, body⟩
  · rintro ⟨quote, ((rfl | rfl) | rfl), body⟩
    · exact Or.inl (Or.inl body)
    · exact Or.inl (Or.inr body)
    · exact Or.inr body

end Lexicon

/-! ## Scanning for one kind of spelling -/

namespace Scan

open Lexicon

theorem plain_iff {quote c : Char} : plain quote c ↔ c ≠ quote ∧ standsIn quote c := by
  simp [plain, standsIn, and_assoc]

theorem untilQuote?_of_mem_quotable
    {quote : Char} {body : List Char}
    (quotes : isQuote quote)
    (member : body ∈ quotable quote)
    (rest : List Char) :
    untilQuote? quote (body ++ quote :: rest) = some (body, rest) := by
  have backslash : '\\' ≠ quote := by
    intro same
    rw [← same] at quotes
    cases quotes
  obtain ⟨pieces, rfl, each⟩ := Language.mem_kstar.mp member
  clear member
  induction pieces with
  | nil =>
      exact untilQuote?_quote quote rest
  | cons piece pieces inner =>
      have later := inner fun other behind => each other (List.mem_cons_of_mem piece behind)
      rw [List.flatten_cons, List.append_assoc]
      rcases (Language.mem_add _ _ _).mp (each piece List.mem_cons_self) with inside | escaped
      · obtain ⟨c, inside, rfl⟩ := inside
        rw [plain_iff] at inside
        rw [List.singleton_append, untilQuote?_of_standsIn inside.1 inside.2, later]
        rfl
      · obtain ⟨_, _, rfl, same, c, notEnd, rfl⟩ := mem_single_mul.mp escaped
        rw [beq_iff_eq.mp same, List.cons_append, List.singleton_append,
          untilQuote?_escaped backslash (bne_iff_ne.mp notEnd), later]
        rfl

theorem mem_quotable_of_untilQuote?
    {quote : Char} {text body final : List Char}
    (success : untilQuote? quote text = some (body, final)) :
    body ∈ quotable quote := by
  fun_induction untilQuote? quote text generalizing body with
  | case1 =>
      cases success
  | case2 =>
      cases success
      exact Language.nil_mem_kstar _
  | case3 c text different stands inner =>
      simp only [Option.map_eq_some_iff, Prod.exists, Prod.mk.injEq] at success
      obtain ⟨tail, final', ran, rfl, rfl⟩ := success
      exact cons_mem_quotable (plain_iff.mpr ⟨different, stands⟩) (inner ran)
  | case4 =>
      cases success
  | case5 text escaped notEnd different stands inner =>
      simp only [Option.map_eq_some_iff, Prod.exists, Prod.mk.injEq] at success
      obtain ⟨tail, final', ran, rfl, rfl⟩ := success
      exact escaped_cons_mem_quotable notEnd (inner ran)
  | case6 =>
      cases success

theorem isNumeral_numeral {c : Char} (digit : c.isDigit) (rest : List Char) :
    IsNumeral (numeral (c :: rest)).1 := by
  have every : ∀ text : List Char, (text.takeWhile Char.isDigit).all Char.isDigit :=
    fun text => List.all_takeWhile
  have nonempty : ∀ {c : Char} {rest : List Char}, c.isDigit →
      (c :: rest).takeWhile Char.isDigit ≠ [] := by
    intro c rest digit
    rw [List.takeWhile_cons_of_pos digit]
    exact List.cons_ne_nil _ _
  unfold numeral
  dsimp only
  split
  · split
    · next digitBehind =>
      exact .point (nonempty digit) (every _) (nonempty digitBehind) (every _)
    · exact .whole (nonempty digit) (every _)
  · exact .whole (nonempty digit) (every _)

theorem prefix_numeral {spelling : List Char} (isNumeral : IsNumeral spelling) (rest : List Char) :
    spelling <+: (numeral (spelling ++ rest)).1 := by
  cases isNumeral with
  | whole _ every =>
      have whole : spelling <+: (spelling ++ rest).takeWhile Char.isDigit := by
        rw [List.takeWhile_append_of_pos (List.all_eq_true.mp every)]
        exact List.prefix_append _ _
      unfold numeral
      dsimp only
      split
      · split
        · exact whole.trans (List.prefix_append _ _)
        · exact whole
      · exact whole
  | @point digits fraction _ every nonempty everyBehind =>
      obtain ⟨first, others, rfl⟩ := List.exists_cons_of_ne_nil nonempty
      have parts : (digits ++ '.' :: (first :: others ++ rest)).takeWhile Char.isDigit = digits ∧
          (digits ++ '.' :: (first :: others ++ rest)).dropWhile Char.isDigit =
            '.' :: first :: (others ++ rest) := by
        apply takeWhile_of_all every
        intro c member
        cases member
        rfl
      have digit := List.all_eq_true.mp everyBehind first List.mem_cons_self
      rw [List.append_assoc, List.cons_append, numeral_of_point parts.2 digit, parts.1,
        ← List.cons_append, List.takeWhile_append_of_pos (List.all_eq_true.mp everyBehind)]
      exact ⟨rest.takeWhile Char.isDigit, by simp⟩

end Scan

namespace Symbol

theorem scan?_spelling (kind : Symbol) : scan? kind.spelling = some kind := by
  cases kind <;> rfl

theorem spelling_injective : Function.Injective spelling := by
  intro kind other same
  have scanned := scan?_spelling kind
  rw [same, scan?_spelling] at scanned
  exact (Option.some.inj scanned).symm

theorem exists_scan? (kind : Symbol) (rest : List Char) :
    ∃ longest, scan? (kind.spelling ++ rest) = some longest ∧
      kind.spelling <+: longest.spelling := by
  cases kind with
  | dot =>
      by_cases dots : ∃ more, rest = '.' :: '.' :: more
      · obtain ⟨more, rfl⟩ := dots
        exact ⟨.ellipsis, rfl, ⟨['.', '.'], rfl⟩⟩
      · refine ⟨.dot, ?_, List.prefix_refl _⟩
        rw [spelling, List.singleton_append, scan?]
        intro more same
        exact dots ⟨more, same⟩
  | equals =>
      by_cases arrow : ∃ more, rest = '>' :: more
      · obtain ⟨more, rfl⟩ := arrow
        exact ⟨.arrow, rfl, ⟨['>'], rfl⟩⟩
      · refine ⟨.equals, ?_, List.prefix_refl _⟩
        rw [spelling, List.singleton_append, scan?]
        intro more same
        exact arrow ⟨more, same⟩
  | _ =>
      exact ⟨_, rfl, List.prefix_refl _⟩

end Symbol

/-! ## Spellings of tokens -/

/-- The spellings of a token. A name and a numeral hold theirs, a string literal holds it without the
quotes. -/
inductive Declared : List Char → Token → Prop where
  | name {spelling : List Char} :
      spelling ∈ Lexicon.name → Declared spelling (.name (String.ofList spelling))
  | string {spelling : List Char} :
      spelling ∈ Lexicon.stringLiteral →
      Declared spelling (.string (String.ofList spelling.tail.dropLast))
  | number {spelling : List Char} :
      spelling ∈ Lexicon.numeral → Declared spelling (.number (String.ofList spelling))
  | symbol (kind : Symbol) : Declared kind.spelling (.symbol kind)

/-- Whether no declared spelling in front of a text is longer than that of a token. -/
structure Longest (text spelling : List Char) (token : Token) : Prop where
  declared : Declared spelling token
  begins : spelling <+: text
  bound : ∀ {other : List Char} {otherToken : Token},
    Declared other otherToken → other <+: text → other.length ≤ spelling.length

/-- It stays the longest where the text is cut off behind it. -/
theorem Longest.inFront
    {text front spelling : List Char} {token : Token}
    (longest : Longest text spelling token)
    (inside : spelling <+: front)
    (begins : front <+: text) :
    Longest front spelling token where
  declared := longest.declared
  begins := inside
  bound := fun declared shorter => longest.bound declared (shorter.trans begins)

/-- With a declared spelling in front, a token is found that is spelled no shorter. -/
theorem Declared.exists_next?
    {spelling : List Char} {token : Token}
    (declared : Declared spelling token)
    (rest : List Char) :
    ∃ scan, Scan.next? (spelling ++ rest) = some scan ∧ spelling <+: scan.spelling ∧
      (scan.spelling = spelling → scan.token = token) := by
  cases declared with
  | name member =>
      obtain ⟨c, others, rfl, start, every⟩ := Lexicon.mem_name.mp member
      have all : ∀ part ∈ c :: others, Scan.isNamePart part := by
        intro part inside
        rcases List.mem_cons.mp inside with rfl | later
        · exact Scan.isNamePart_of_isNameStart start
        · exact List.all_eq_true.mp every part later
      refine ⟨_, Scan.next?_of_nameStart start (others ++ rest), ?_,
        fun same => congrArg (fun spelled => Token.name (String.ofList spelled)) same⟩
      rw [← List.cons_append, List.takeWhile_append_of_pos all]
      exact List.prefix_append _ _
  | string member =>
      obtain ⟨quote, quotes, body, inside, rfl⟩ := Lexicon.mem_stringLiteral.mp member
      have scanned := Scan.next?_of_quote quotes (body ++ quote :: rest)
      rw [Scan.untilQuote?_of_mem_quotable quotes inside] at scanned
      rw [List.cons_append, List.append_assoc, List.singleton_append]
      refine ⟨_, scanned, List.prefix_refl _, fun _ => ?_⟩
      rw [List.tail_cons, List.dropLast_concat]
  | number member =>
      have isNumeral := Lexicon.mem_numeral.mp member
      obtain ⟨c, others, rfl, digit⟩ := isNumeral.exists_digit
      exact ⟨_, Scan.next?_of_isDigit digit (others ++ rest), Scan.prefix_numeral isNumeral rest,
        fun same => congrArg (fun spelled => Token.number (String.ofList spelled)) same⟩
  | symbol kind =>
      obtain ⟨longest, scanned, longer⟩ := kind.exists_scan? rest
      have unquoted : Scan.next? (kind.spelling ++ rest) =
          (Symbol.scan? (kind.spelling ++ rest)).map fun symbol =>
            ⟨.symbol symbol, symbol.spelling,
              (kind.spelling ++ rest).drop symbol.spelling.length⟩ := by
        cases kind <;> rfl
      rw [scanned] at unquoted
      exact ⟨_, unquoted, longer, fun same => congrArg _ (Symbol.spelling_injective same)⟩

namespace Scan

theorem declared_of_next? {text : List Char} {scan : Scan} (scanned : next? text = some scan) :
    Declared scan.spelling scan.token := by
  cases text with
  | nil =>
      cases scanned
  | cons c rest =>
      by_cases start : isNameStart c
      · rw [next?_of_nameStart start] at scanned
        cases scanned
        apply Declared.name
        rw [List.takeWhile_cons_of_pos (isNamePart_of_isNameStart start)]
        exact Lexicon.mem_name.mpr ⟨c, _, rfl, start, List.all_takeWhile⟩
      · by_cases digit : c.isDigit
        · rw [next?_of_isDigit digit] at scanned
          cases scanned
          exact .number (Lexicon.mem_numeral.mpr (isNumeral_numeral digit rest))
        · by_cases quotes : isQuote c
          · rw [next?_of_quote quotes] at scanned
            simp only [Option.map_eq_some_iff, Prod.exists] at scanned
            obtain ⟨body, final, ran, rfl⟩ := scanned
            have literal : Declared (c :: (body ++ [c])) _ :=
              .string (Lexicon.mem_stringLiteral.mpr
                ⟨c, quotes, body, mem_quotable_of_untilQuote? ran, rfl⟩)
            rwa [List.tail_cons, List.dropLast_concat] at literal
          · rw [next?, if_neg start, if_neg digit, if_neg quotes] at scanned
            simp only [Option.map_eq_some_iff] at scanned
            obtain ⟨symbol, _, rfl⟩ := scanned
            exact .symbol symbol

/-- The token in front of a text is the one with the longest of the declared spellings there. -/
theorem next?_eq_some_iff {text : List Char} {scan : Scan} :
    next? text = some scan ↔
      Longest text scan.spelling scan.token ∧ scan.spelling ++ scan.rest = text := by
  constructor
  · intro scanned
    have whole := spelling_append_rest scanned
    refine ⟨⟨declared_of_next? scanned, ⟨scan.rest, whole⟩, ?_⟩, whole⟩
    intro other token declared begins
    obtain ⟨rest, rfl⟩ := begins
    obtain ⟨found, ran, longer, _⟩ := declared.exists_next? rest
    rw [scanned] at ran
    cases ran
    exact longer.length_le
  · rintro ⟨longest, rfl⟩
    obtain ⟨found, ran, longer, sameToken⟩ := longest.declared.exists_next? scan.rest
    have whole := spelling_append_rest ran
    have shorter := longest.bound (declared_of_next? ran) ⟨found.rest, whole⟩
    have same := (longer.eq_of_length_le shorter).symm
    have token := sameToken same
    rw [same] at whole
    have rest := List.append_cancel_left whole
    rw [ran]
    cases found
    cases scan
    cases same
    cases token
    cases rest
    rfl

theorem next?_eq_none_iff {text : List Char} :
    next? text = none ↔ ∀ spelling token, Declared spelling token → ¬ spelling <+: text := by
  constructor
  · intro missing spelling token declared begins
    obtain ⟨rest, rfl⟩ := begins
    obtain ⟨found, ran, _⟩ := declared.exists_next? rest
    rw [missing] at ran
    cases ran
  · intro nothing
    cases scanned : next? text with
    | none =>
        rfl
    | some scan =>
        exact absurd ⟨scan.rest, spelling_append_rest scanned⟩
          (nothing _ _ (declared_of_next? scanned))

end Scan

end TypeGraph
