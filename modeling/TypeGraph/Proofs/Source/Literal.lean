import TypeGraph.Proofs.Source.Quoted
import TypeGraph.Source.Component

/-!
# Literals as types

A literal stands for the type that has the value's shape: the text of its numbers and its strings is
kept as it is written. A number that is written with an exponent stands for no type.
-/

namespace TypeGraph

/-! ## Numbers -/

theorem writes_numeral {text : List Char} (numeral : IsNumeral text) :
    Writes (String.ofList text) (.number (String.ofList text)) :=
  ⟨_, spells_numeral numeral, TypeReader.spelled_number _⟩

theorem writes_negative {text : List Char} (numeral : IsNumeral text) :
    Writes ("-" ++ String.ofList text) (.number ("-" ++ String.ofList text)) := by
  have minus : Closed "-" [.symbol .minus] := closed_marks rfl
  exact ⟨_, minus.append_spells (spells_numeral numeral), TypeReader.spelled_negative _⟩

theorem isNumeral_toDigits (value : Nat) : IsNumeral (Nat.toDigits 10 value) :=
  .whole Nat.toDigits_ne_nil
    (List.all_eq_true.mpr fun _ => Nat.isDigit_of_mem_toDigits (by decide) (by decide))

namespace Number

theorem all_isDigit_zeros (count : Nat) : (List.replicate count '0').all Char.isDigit := by
  rw [List.all_eq_true]
  intro c member
  rw [(List.mem_replicate.mp member).2]
  rfl

theorem isNumeral_positionalText
    {digits : List Char}
    (nonempty : digits ≠ [])
    (every : digits.all Char.isDigit)
    (point : Int) :
    IsNumeral (positionalText digits point true) := by
  have members := List.all_eq_true.mp every
  have front : (if point ≤ 0 then ['0']
      else digits.take point.toNat ++ List.replicate (point.toNat - digits.length) '0') ≠ [] ∧
      (if point ≤ 0 then ['0']
        else digits.take point.toNat ++ List.replicate (point.toNat - digits.length) '0').all
        Char.isDigit := by
    split
    · exact ⟨List.cons_ne_nil _ _, rfl⟩
    · constructor
      · intro empty
        have taken := (List.append_eq_nil_iff.mp empty).1
        rcases List.take_eq_nil_iff.mp taken with zero | none
        · omega
        · exact nonempty none
      · rw [List.all_append, Bool.and_eq_true]
        exact ⟨List.all_eq_true.mpr fun c member => members c (List.mem_of_mem_take member),
          all_isDigit_zeros _⟩
  have back : (if digits.drop point.toNat = [] then ['0']
      else List.replicate (-point).toNat '0' ++ digits.drop point.toNat) ≠ [] ∧
      (if digits.drop point.toNat = [] then ['0']
        else List.replicate (-point).toNat '0' ++ digits.drop point.toNat).all Char.isDigit := by
    split
    · exact ⟨List.cons_ne_nil _ _, rfl⟩
    · next occupied =>
      refine ⟨fun empty => occupied (List.append_eq_nil_iff.mp empty).2, ?_⟩
      rw [List.all_append, Bool.and_eq_true]
      exact ⟨all_isDigit_zeros _,
        List.all_eq_true.mpr fun c member => members c (List.mem_of_mem_drop member)⟩
  rw [positionalText, if_pos rfl, if_neg back.1]
  exact .point front.1 front.2 back.1 back.2

theorem mem_exponentText (digits : List Char) (point : Int) : 'e' ∈ exponentText digits point :=
  List.mem_append_right _ List.mem_cons_self

theorem isNumeral_decimalText
    {decimal : Decimal} (noExponent : 'e' ∉ jsonLayout.decimalText decimal) :
    IsNumeral (jsonLayout.decimalText decimal) := by
  have digits : ∀ c ∈ Nat.toDigits 10 decimal.significand, c.isDigit :=
    fun _ => Nat.isDigit_of_mem_toDigits (by decide) (by decide)
  change 'e' ∉ ite _ _ _ at noExponent
  change IsNumeral (ite _ _ _)
  split at noExponent
  · next inside =>
    rw [if_pos inside]
    exact isNumeral_positionalText Nat.toDigits_ne_nil (List.all_eq_true.mpr digits) _
  · exact absurd (mem_exponentText _ _) noExponent

end Number

open TypeGraph.Json TypeGraph.Text

/-- A number that is not written with an exponent is a numeral, perhaps with a sign. -/
theorem writes_number
    {number : Json.Number} (noExponent : 'e' ∉ number.text.toList) :
    Writes number.text (.number number.text) := by
  cases number with
  | integer value fits =>
      cases value with
      | ofNat magnitude =>
          exact writes_numeral (isNumeral_toDigits magnitude)
      | negSucc magnitude =>
          exact writes_negative (isNumeral_toDigits (magnitude + 1))
  | real value =>
      have magnitude : ∀ text, text = Number.jsonLayout.decimalText (value.shortest .toEven) →
          'e' ∉ text → IsNumeral text := by
        rintro _ rfl
        exact Number.isNumeral_decimalText
      change 'e' ∉ (String.ofList (if value.negative = true then _ else _)).toList at noExponent
      change Writes (String.ofList (if value.negative = true then _ else _))
        (.number (String.ofList (if value.negative = true then _ else _)))
      rw [String.toList_ofList] at noExponent
      cases negative : value.negative with
      | false =>
          rw [negative] at noExponent
          exact writes_numeral (magnitude _ rfl noExponent)
      | true =>
          rw [negative] at noExponent
          have signed := writes_negative
            (magnitude _ rfl fun member => noExponent (List.mem_cons_of_mem _ member))
          rwa [show ("-" : String) = String.ofList ['-'] from rfl, ← String.ofList_append] at signed

/-! ## Tuples and objects -/

theorem writes_tuple
    {texts : List String} {types : List TypeExpr} (each : List.Forall₂ Writes texts types) :
    WritesClosed ("[" ++ ", ".intercalate texts ++ "]") (.tuple types) := by
  obtain ⟨items, spells, spelled⟩ := exists_tokens each
  have comma : Closed ", " [.symbol .comma] := closed_marks rfl
  obtain ⟨tokens, listed, inside⟩ := spells_intercalate comma rfl spells
  have opening : Closed "[" [.symbol .openBracket] := closed_marks rfl
  have closing : Closed "]" [.symbol .closeBracket] := closed_marks rfl
  exact ⟨_, (opening.append_spells inside).append_closed closing rfl,
    TypeReader.spelled_tuple listed spelled⟩

theorem writes_objectType
    {fields : List String} {members : List Member}
    (each : List.Forall₂ WritesMember fields members) :
    WritesClosed (Source.objectType fields) (.object members) := by
  obtain ⟨items, spells, spelled⟩ := exists_tokens each
  have semicolon : Closed "; " [.symbol .semicolon] := closed_marks rfl
  obtain ⟨tokens, listed, inside⟩ := spells_intercalate semicolon rfl spells
  cases fields with
  | nil =>
      cases spells
      cases listed
      have braces : Closed "\x7b\x7d" [.symbol .openBrace, .symbol .closeBrace] := closed_marks rfl
      exact ⟨_, braces, TypeReader.spelled_object .none spelled⟩
  | cons field fields =>
      have opening : Closed "\x7b " [.symbol .openBrace] := closed_marks rfl
      have closing : Closed " \x7d" [.symbol .closeBrace] := closed_marks rfl
      exact ⟨_, (opening.append_spells inside).append_closed closing rfl,
        TypeReader.spelled_object listed spelled⟩

/-! ## Literals -/

namespace Json.Value

mutual

def numbers : Value → List Json.Number
  | number value => [value]
  | array items => numbersOfItems items
  | object members => numbersOfMembers members
  | null | bool _ | string _ => []

def numbersOfItems : List Value → List Json.Number
  | [] => []
  | item :: rest => numbers item ++ numbersOfItems rest

def numbersOfMembers : List (String × Value) → List Json.Number
  | [] => []
  | (_, value) :: rest => numbers value ++ numbersOfMembers rest

end

/-- Whether no number in a value is written with an exponent. -/
def Plain (value : Value) : Prop :=
  ∀ number ∈ value.numbers, 'e' ∉ number.text.toList

end Json.Value

namespace Source

mutual

/-- The type that a literal stands for. -/
def literalTree : Value → TypeExpr
  | .null => .named "null"
  | .bool value => .named (if value then "true" else "false")
  | .number value => .number value.text
  | .string value => .string (escaped '"' value)
  | .array items => .tuple (literalTrees items)
  | .object members => .object (memberTrees members)

def literalTrees : List Value → List TypeExpr
  | [] => []
  | item :: rest => literalTree item :: literalTrees rest

def memberTrees : List (String × Value) → List Member
  | [] => []
  | (name, value) :: rest => .property (escaped '"' name) (literalTree value) :: memberTrees rest

end

mutual

theorem writes_literal (value : Value) (plain : value.Plain) :
    Writes (literal value) (literalTree value) := by
  cases value with
  | null =>
      exact writes_identifier rfl
  | bool value =>
      cases value <;> exact writes_identifier rfl
  | number value =>
      exact writes_number (plain value List.mem_cons_self)
  | string value =>
      exact (writes_doubleQuoted value).writes
  | array items =>
      exact (writes_tuple (writes_literals items plain)).writes
  | object members =>
      have object := (writes_objectType (writes_memberLiterals members plain)).writes
      cases members <;> exact object

theorem writes_literals
    (items : List Value)
    (plain : ∀ number ∈ Value.numbersOfItems items, 'e' ∉ number.text.toList) :
    List.Forall₂ Writes (literals items) (literalTrees items) := by
  cases items with
  | nil =>
      exact .nil
  | cons item rest =>
      rw [Value.numbersOfItems, List.forall_mem_append] at plain
      exact .cons (writes_literal item plain.1) (writes_literals rest plain.2)

theorem writes_memberLiterals
    (members : List (String × Value))
    (plain : ∀ number ∈ Value.numbersOfMembers members, 'e' ∉ number.text.toList) :
    List.Forall₂ WritesMember (memberLiterals members) (memberTrees members) := by
  rcases members with _ | ⟨⟨name, value⟩, rest⟩
  · exact .nil
  · rw [Value.numbersOfMembers, List.forall_mem_append] at plain
    exact .cons (writes_member (writes_literal value plain.1)) (writes_memberLiterals rest plain.2)

end

end Source

end TypeGraph
