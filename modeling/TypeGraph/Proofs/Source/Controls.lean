import TypeGraph.Proofs.TypeExpr.Spelling
import TypeGraph.Source.Literal

/-!
# Control characters

Which of the texts that a file is made of hold control characters. Names, quoted texts and literals
hold none, whatever they are made of.
-/

namespace TypeGraph

open TypeGraph.Json

namespace Text

/-- The control characters of a text, in their order. -/
def controls (text : String) : List Char :=
  text.toList.filter fun c => c.toNat < 0x20

theorem mem_controls {text : String} {c : Char} :
    c ∈ controls text ↔ c ∈ text.toList ∧ c.toNat < 0x20 := by
  rw [controls, List.mem_filter, decide_eq_true_iff]

theorem controls_append (first second : String) :
    controls (first ++ second) = controls first ++ controls second := by
  rw [controls, String.toList_append, List.filter_append]
  rfl

theorem controls_eq_nil {text : String} (printable : ∀ c ∈ text.toList, 0x20 ≤ c.toNat) :
    controls text = [] := by
  rw [List.eq_nil_iff_forall_not_mem]
  intro c member
  obtain ⟨inside, control⟩ := mem_controls.mp member
  exact absurd control (Nat.not_lt.mpr (printable c inside))

/-- The condition is one to compute for a text that the program brings along. -/
theorem controls_of_all {text : String} (printable : text.toList.all (0x20 ≤ ·.toNat)) :
    controls text = [] :=
  controls_eq_nil fun c member => of_decide_eq_true (List.all_eq_true.mp printable c member)

theorem controls_intercalate
    {separator : String} (clean : controls separator = []) (texts : List String) :
    controls (separator.intercalate texts) = texts.flatMap controls := by
  induction texts with
  | nil =>
      rfl
  | cons first rest inner =>
      rw [List.flatMap_cons, ← inner]
      cases rest with
      | nil =>
          rw [String.intercalate_singleton, String.intercalate_nil]
          exact (List.append_nil _).symm
      | cons second rest =>
          rw [String.intercalate_cons_cons, controls_append, controls_append, clean,
            List.append_nil]

/-! ## Names -/

theorem printable_of_isDigit {c : Char} (digit : c.isDigit) : 0x20 ≤ c.toNat := by
  rw [Scan.isDigit_iff] at digit
  omega

theorem printable_of_isNamePart {c : Char} (part : Scan.isNamePart c) : 0x20 ≤ c.toNat := by
  simp only [Scan.isNamePart, Char.isAlphanum, Bool.or_eq_true, Scan.isAlpha_iff, Scan.isDigit_iff,
    beq_iff_eq] at part
  rcases part with (alphanumeric | rfl) | rfl
  · omega
  · decide
  · decide

theorem controls_of_isName {text : String} (named : Scan.isName text) : controls text = [] :=
  controls_eq_nil fun c member => printable_of_isNamePart
    (List.all_eq_true.mp (Scan.all_isNamePart_of_isName named) c member)

theorem controls_of_isIdentifier {text : String} (identifier : isIdentifier text) :
    controls text = [] :=
  controls_of_isName (Scan.isName_of_isIdentifier identifier)

/-! ## Quoted texts -/

theorem printable_of_mem_escapeIn
    {quote c written : Char} (quotes : 0x20 ≤ quote.toNat) (member : written ∈ escapeIn quote c) :
    0x20 ≤ written.toNat := by
  unfold escapeIn at member
  split at member
  · next marked =>
    rcases List.mem_cons.mp member with rfl | same
    · decide
    · rw [List.mem_singleton.mp same]
      rcases marked with rfl | rfl
      · exact quotes
      · decide
  · split at member
    · next control =>
      split at member
      · next letter named =>
        rcases List.mem_cons.mp member with rfl | same
        · decide
        · rw [List.mem_singleton.mp same]
          unfold controlLetter? at named
          split at named <;> cases named <;> decide
      · have digits : ∀ code < 0x20, (unicodeEscape code).all (0x20 ≤ ·.toNat) := by
          decide
        exact of_decide_eq_true (List.all_eq_true.mp (digits c.toNat control) written member)
    · next printable =>
      rw [List.mem_singleton.mp member]
      exact Nat.not_lt.mp printable

theorem controls_quoteChars {quote : Char} (quotes : 0x20 ≤ quote.toNat) (text : List Char) :
    controls (String.ofList (quoteChars quote text)) = [] := by
  apply controls_eq_nil
  intro c member
  rw [String.toList_ofList, quoteChars, List.mem_cons, List.mem_append, List.mem_singleton] at member
  rcases member with rfl | inside | rfl
  · exact quotes
  · obtain ⟨original, _, written⟩ := List.mem_flatMap.mp inside
    exact printable_of_mem_escapeIn quotes written
  · exact quotes

theorem controls_singleQuoted (text : String) : controls (singleQuoted text) = [] :=
  controls_quoteChars (by decide) text.toList

theorem controls_doubleQuoted (text : String) : controls (doubleQuoted text) = [] :=
  controls_quoteChars (by decide) text.toList

/-- A key is an identifier or quoted. -/
theorem controls_propertyKey (key : String) : controls (propertyKey key) = [] := by
  unfold propertyKey
  split
  · next identifier => exact controls_of_isIdentifier identifier
  · exact controls_doubleQuoted key

/-! ## Numbers -/

theorem printable_of_mem_toDigits
    {c : Char} {number : Nat} (member : c ∈ Nat.toDigits 10 number) :
    0x20 ≤ c.toNat :=
  printable_of_isDigit (Nat.isDigit_of_mem_toDigits (by decide) (by decide) member)

theorem controls_toString (number : Nat) : controls (toString number) = [] := by
  apply controls_eq_nil
  intro c member
  rw [Nat.toString_eq_repr, Nat.toList_repr] at member
  exact printable_of_mem_toDigits member

end Text

namespace Number

open TypeGraph.Text

theorem of_mem_positionalText
    {digits : List Char} {point : Int} {keepsFraction : Bool} {c : Char}
    (member : c ∈ positionalText digits point keepsFraction) :
    c ∈ digits ∨ c = '0' ∨ c = '.' := by
  have zeros : ∀ count, c ∈ List.replicate count '0' → c = '0' :=
    fun count repeated => (List.mem_replicate.mp repeated).2
  unfold positionalText at member
  grind [List.mem_of_mem_take, List.mem_of_mem_drop]

theorem of_mem_exponentText
    {digits : List Char} {point : Int} {c : Char} (member : c ∈ exponentText digits point) :
    c ∈ digits ∨ c ∈ ['.', 'e', '-', '+'] ∨ c ∈ Nat.toDigits 10 (point - 1).natAbs := by
  unfold exponentText at member
  grind

theorem printable_of_mem_decimalText
    {layout : Layout} {decimal : Decimal} {c : Char} (member : c ∈ layout.decimalText decimal) :
    0x20 ≤ c.toNat := by
  have positional : ∀ point keepsFraction,
      c ∈ positionalText (Nat.toDigits 10 decimal.significand) point keepsFraction →
        0x20 ≤ c.toNat := by
    intro point keepsFraction member
    rcases of_mem_positionalText member with digit | rfl | rfl
    · exact printable_of_mem_toDigits digit
    · decide
    · decide
  have marks : ['.', 'e', '-', '+'].all (0x20 ≤ ·.toNat) := rfl
  unfold Layout.decimalText at member
  dsimp only at member
  split at member
  · exact positional _ _ member
  · split at member
    · exact positional _ _ member
    · rcases of_mem_exponentText member with digit | mark | digit
      · exact printable_of_mem_toDigits digit
      · exact of_decide_eq_true (List.all_eq_true.mp marks c mark)
      · exact printable_of_mem_toDigits digit

end Number

theorem Text.controls_numberText (number : Json.Number) : controls number.text = [] := by
  cases number with
  | integer value fits =>
      cases value with
      | ofNat magnitude =>
          exact controls_toString magnitude
      | negSucc magnitude =>
          have minus : controls "-" = [] := rfl
          have digits := controls_toString (magnitude + 1)
          have signed := controls_append "-" (toString (magnitude + 1))
          rw [minus, digits] at signed
          exact signed
  | real value =>
      apply controls_eq_nil
      intro c member
      change c ∈ (String.ofList _).toList at member
      rw [String.toList_ofList] at member
      split at member
      · rcases List.mem_cons.mp member with rfl | inside
        · decide
        · exact Number.printable_of_mem_decimalText inside
      · exact Number.printable_of_mem_decimalText member

/-! ## Literals -/

namespace Source

open TypeGraph.Text

mutual

/-- No value has a control character in its literal, in however deep a string or key it stands. -/
theorem controls_literal (value : Value) : controls (literal value) = [] := by
  cases value with
  | null =>
      rfl
  | bool value =>
      cases value <;> rfl
  | number value =>
      exact controls_numberText value
  | string value =>
      exact controls_doubleQuoted value
  | array items =>
      have comma : controls ", " = [] := rfl
      have inside := controls_literals items
      rw [literal, controls_append, controls_append, controls_intercalate comma, inside]
      rfl
  | object members =>
      have semicolon : controls "; " = [] := rfl
      have inside := controls_memberLiterals members
      cases members with
      | nil =>
          rfl
      | cons member members =>
          rw [literal, controls_append, controls_append, controls_intercalate semicolon, inside]
          rfl

theorem controls_literals (items : List Value) : (literals items).flatMap controls = [] := by
  cases items with
  | nil =>
      rfl
  | cons item rest =>
      rw [literals, List.flatMap_cons, controls_literal item, controls_literals rest]
      rfl

theorem controls_memberLiterals (members : List (String × Value)) :
    (memberLiterals members).flatMap controls = [] := by
  rcases members with _ | ⟨⟨name, value⟩, rest⟩
  · rfl
  · have colon : controls ": " = [] := rfl
    rw [memberLiterals, List.flatMap_cons, controls_append, controls_append,
      controls_propertyKey name, colon, controls_literal value, controls_memberLiterals rest]
    rfl

end

end Source

end TypeGraph
