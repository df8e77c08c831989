import TypeGraph.Proofs.Source.Controls

/-!
# Quoted texts as tokens

No text gets out of its quotes: whatever its characters, it is cut into one string literal, which
holds the characters as they are escaped there.
-/

namespace TypeGraph

open Text

namespace Text

/-- A text as it is written between two quotes. -/
def escaped (quote : Char) (text : String) : String :=
  String.ofList (text.toList.flatMap (escapeIn quote))

def QuotesText (quote : Char) : Prop :=
  quote = '"' ∨ quote = '\''

theorem escapeIn_of_isIdentifierPart
    {quote c : Char} (quotes : QuotesText quote) (part : isIdentifierPart c) :
    escapeIn quote c = [c] := by
  have noControl : ¬ c.toNat < 0x20 :=
    Nat.not_lt.mpr (printable_of_isNamePart (Scan.isNamePart_of_isIdentifierPart part))
  have plain : ¬ (c = quote ∨ c = '\\') := by
    rintro (rfl | rfl)
    · rcases quotes with rfl | rfl <;> cases part
    · cases part
  rw [escapeIn, if_neg plain, if_neg noControl]

/-- An identifier is written between quotes as it is. -/
theorem escaped_of_isIdentifier
    {quote : Char} {text : String} (quotes : QuotesText quote) (identifier : isIdentifier text) :
    escaped quote text = text := by
  have parts : ∀ c ∈ text.toList, isIdentifierPart c := by
    rw [isIdentifier] at identifier
    cases chars : text.toList with
    | nil =>
        exact List.forall_mem_nil _
    | cons first rest =>
        rw [chars, isIdentifierChars, Bool.and_eq_true] at identifier
        intro c member
        rcases List.mem_cons.mp member with rfl | later
        · have start := identifier.1
          simp only [isIdentifierStart, isIdentifierPart, Char.isAlphanum, Bool.or_eq_true] at *
          tauto
        · exact List.all_eq_true.mp identifier.2 c later
  have same : text.toList.flatMap (escapeIn quote) = text.toList.flatMap fun c => [c] :=
    List.flatMap_congr fun c member => escapeIn_of_isIdentifierPart quotes (parts c member)
  rw [escaped, same, List.flatMap_singleton', String.ofList_toList]

end Text

namespace Scan

/-- The escaped form of one character does not end a quoted text. -/
theorem untilQuote?_escapeIn
    {quote : Char} (quotes : QuotesText quote) (c : Char) (rest : List Char) :
    untilQuote? quote (escapeIn quote c ++ rest) =
      (untilQuote? quote rest).map fun (body, final) => (escapeIn quote c ++ body, final) := by
  have backslash : '\\' ≠ quote := by
    rcases quotes with rfl | rfl <;> decide
  have stands : ∀ code < 16, Nat.digitChar code ≠ quote ∧ standsIn quote (Nat.digitChar code) := by
    rcases quotes with rfl | rfl <;> decide
  have zero : '0' ≠ quote ∧ standsIn quote '0' := stands 0 (by decide)
  unfold escapeIn
  split
  · next marked =>
    refine untilQuote?_escaped backslash ?_ rest
    rintro rfl
    rcases quotes with rfl | rfl <;> revert marked <;> decide
  · next plain =>
    rw [not_or] at plain
    split
    · next control =>
      split
      · next letter named =>
        refine untilQuote?_escaped backslash ?_ rest
        rintro rfl
        unfold controlLetter? at named
        split at named <;> cases named
      · have high := stands (c.toNat / 16) (by omega)
        have low := stands (c.toNat % 16) (by omega)
        rw [unicodeEscape, List.cons_append, List.cons_append,
          untilQuote?_escaped backslash (by decide), List.cons_append,
          untilQuote?_of_standsIn zero.1 zero.2, List.cons_append,
          untilQuote?_of_standsIn zero.1 zero.2, List.cons_append,
          untilQuote?_of_standsIn high.1 high.2, List.cons_append,
          untilQuote?_of_standsIn low.1 low.2, List.nil_append]
        cases untilQuote? quote rest <;> rfl
    · next printable =>
      refine untilQuote?_of_standsIn plain.1 ?_ rest
      have noFeed : c ≠ '\n' := by
        rintro rfl
        exact printable (by decide)
      simp [standsIn, plain.2, noFeed]

theorem untilQuote?_flatMap
    {quote : Char} (quotes : QuotesText quote) (text rest : List Char) :
    untilQuote? quote (text.flatMap (escapeIn quote) ++ quote :: rest) =
      some (text.flatMap (escapeIn quote), rest) := by
  induction text with
  | nil =>
      exact untilQuote?_quote quote rest
  | cons c text inner =>
      rw [List.flatMap_cons, List.append_assoc, untilQuote?_escapeIn quotes, inner]
      rfl

theorem next?_quoteChars {quote : Char} (quotes : QuotesText quote) (text : String)
    (rest : List Char) :
    next? (quoteChars quote text.toList ++ rest) =
      some ⟨.string (escaped quote text), quoteChars quote text.toList, rest⟩ := by
  have isQuote : Scan.isQuote quote := by
    rcases quotes with rfl | rfl <;> rfl
  rw [quoteChars, List.cons_append, List.append_assoc, List.singleton_append,
    next?_of_quote isQuote, untilQuote?_flatMap quotes]
  rfl

end Scan

theorem closed_quoteChars {quote : Char} (quotes : QuotesText quote) (text : String) :
    Closed (String.ofList (quoteChars quote text.toList)) [.string (escaped quote text)] := by
  intro rest
  rw [String.toList_ofList]
  exact .token (Scan.next?_quoteChars quotes text rest) (.done rest)

theorem closed_doubleQuoted (text : String) :
    Closed (doubleQuoted text) [.string (escaped '"' text)] :=
  closed_quoteChars (Or.inl rfl) text

theorem closed_singleQuoted (text : String) :
    Closed (singleQuoted text) [.string (escaped '\'' text)] :=
  closed_quoteChars (Or.inr rfl) text

theorem writes_doubleQuoted (text : String) :
    WritesClosed (doubleQuoted text) (.string (escaped '"' text)) :=
  ⟨_, closed_doubleQuoted text, TypeReader.spelled_string _⟩

theorem writes_singleQuoted (text : String) :
    WritesClosed (singleQuoted text) (.string (escaped '\'' text)) :=
  ⟨_, closed_singleQuoted text, TypeReader.spelled_string _⟩

/-! ## Keys -/

theorem writes_member
    {key text : String} {type : TypeExpr} (writes : Writes text type) :
    WritesMember (propertyKey key ++ ": " ++ text) (.property (escaped '"' key) type) := by
  obtain ⟨tokens, spells, spelled⟩ := writes
  have colon : Closed ": " [.symbol .colon] := closed_marks rfl
  by_cases identifier : isIdentifier key
  · rw [propertyKey, if_pos identifier, escaped_of_isIdentifier (Or.inl rfl) identifier]
    exact ⟨_, ((spells_identifier identifier).append_closed colon rfl).append_spells spells,
      TypeReader.spelledMember_property (Or.inl rfl) spelled⟩
  · rw [propertyKey, if_neg identifier]
    exact ⟨_, ((closed_doubleQuoted key).append colon).append_spells spells,
      TypeReader.spelledMember_property (Or.inr rfl) spelled⟩

theorem writes_member_of_isIdentifier
    {name text : String} {type : TypeExpr}
    (identifier : isIdentifier name)
    (writes : Writes text type) :
    WritesMember (name ++ ": " ++ text) (.property name type) := by
  have member : WritesMember (propertyKey name ++ ": " ++ text) _ := writes_member writes
  rwa [propertyKey, if_pos identifier, escaped_of_isIdentifier (Or.inl rfl) identifier] at member

end TypeGraph
