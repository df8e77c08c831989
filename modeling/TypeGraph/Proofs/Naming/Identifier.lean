import Std.Data.String.ToNat
import TypeGraph.Plan.Names

/-!
# Identifiers made of texts

Every sanitized text is an identifier, and so is an identifier with a number behind it. Names with
different numbers behind one base differ from each other and from the base.
-/

namespace TypeGraph.Text

/-! ## Shapes of identifiers -/

theorem isIdentifierPart_underscored (c : Char) : isIdentifierPart (underscored c) := by
  by_cases alphanumeric : c.isAlphanum
  · simp [underscored, isIdentifierPart, alphanumeric]
  · simp [underscored, isIdentifierPart, alphanumeric]

theorem isIdentifierStart_of_part
    {c : Char}
    (part : isIdentifierPart c)
    (notDigit : ¬ c.isDigit) :
    isIdentifierStart c := by
  simp only [isIdentifierPart, Char.isAlphanum, Bool.or_eq_true] at part
  simp only [isIdentifierStart, Bool.or_eq_true]
  rcases part with (letter | digit) | underscore
  · exact Or.inl letter
  · exact absurd digit notDigit
  · exact Or.inr underscore

theorem isIdentifierPart_of_isDigit {c : Char} (digit : c.isDigit) : isIdentifierPart c := by
  simp [isIdentifierPart, Char.isAlphanum, digit]

theorem isIdentifierChars_append
    {name more : List Char}
    (identifier : isIdentifierChars name)
    (parts : more.all isIdentifierPart) :
    isIdentifierChars (name ++ more) := by
  cases name with
  | nil =>
      simp [isIdentifierChars] at identifier
  | cons first rest =>
      simp only [isIdentifierChars, Bool.and_eq_true] at identifier
      simp only [List.cons_append, isIdentifierChars, List.all_append, Bool.and_eq_true]
      exact ⟨identifier.1, identifier.2, parts⟩

theorem isIdentifierChars_of_prefix
    {name whole : List Char}
    (initial : name <+: whole)
    (identifier : isIdentifierChars whole)
    (nonempty : name ≠ []) :
    isIdentifierChars name := by
  obtain ⟨more, rfl⟩ := initial
  cases name with
  | nil =>
      exact absurd rfl nonempty
  | cons first rest =>
      simp only [List.cons_append, isIdentifierChars, List.all_append, Bool.and_eq_true]
        at identifier
      simp only [isIdentifierChars, Bool.and_eq_true]
      exact ⟨identifier.1, identifier.2.1⟩

/-! ## The steps of sanitizing -/

theorem squeeze_cons (c : Char) (rest : List Char) :
    squeeze (c :: rest) =
      if c = '_' ∧ (squeeze rest).head? = some '_' then squeeze rest else c :: squeeze rest :=
  rfl

theorem squeeze_sublist (text : List Char) : (squeeze text).Sublist text := by
  induction text with
  | nil =>
      exact List.Sublist.refl []
  | cons c rest inner =>
      rw [squeeze_cons]
      split
      · exact inner.cons c
      · exact inner.cons_cons c

theorem dropFinalUnderscores_cons (c : Char) (rest : List Char) :
    dropFinalUnderscores (c :: rest) =
      if c = '_' ∧ dropFinalUnderscores rest = [] then [] else c :: dropFinalUnderscores rest :=
  rfl

theorem dropFinalUnderscores_prefix (text : List Char) :
    dropFinalUnderscores text <+: text := by
  induction text with
  | nil =>
      exact List.prefix_refl []
  | cons c rest inner =>
      rw [dropFinalUnderscores_cons]
      split
      · exact List.nil_prefix
      · exact (List.prefix_cons_inj c).mpr inner

theorem isIdentifierChars_guardDigit
    {text : List Char}
    (parts : text.all isIdentifierPart)
    (nonempty : text ≠ []) :
    isIdentifierChars (guardDigit text) := by
  cases text with
  | nil =>
      exact absurd rfl nonempty
  | cons first rest =>
      have partsSplit := parts
      simp only [List.all_cons, Bool.and_eq_true] at partsSplit
      by_cases digit : first.isDigit
      · have underscore : isIdentifierStart '_' := by decide
        simp only [guardDigit, digit, if_true, isIdentifierChars, Bool.and_eq_true]
        exact ⟨underscore, parts⟩
      · simp only [guardDigit, digit, isIdentifierChars]
        simp only [Bool.false_eq_true, if_false, Bool.and_eq_true]
        exact ⟨isIdentifierStart_of_part partsSplit.1 digit, partsSplit.2⟩

/-- Whatever the text, its sanitized form is an identifier. -/
theorem isIdentifierChars_sanitizeChars (text : List Char) :
    isIdentifierChars (sanitizeChars text) := by
  unfold sanitizeChars
  split
  · decide
  · next trimmed =>
    have parts : (squeeze (text.map underscored)).all isIdentifierPart := by
      rw [List.all_eq_true]
      intro c member
      obtain ⟨original, _, rfl⟩ :=
        List.mem_map.mp ((squeeze_sublist (text.map underscored)).subset member)
      exact isIdentifierPart_underscored original
    have guarded :
        dropFinalUnderscores (guardDigit (squeeze (text.map underscored))) <+:
          guardDigit (squeeze (text.map underscored)) :=
      dropFinalUnderscores_prefix _
    refine isIdentifierChars_of_prefix guarded (isIdentifierChars_guardDigit parts ?_) trimmed
    intro empty
    rw [empty] at trimmed
    exact trimmed rfl

theorem isIdentifier_sanitize (text : String) : isIdentifier (sanitize text) := by
  rw [isIdentifier, sanitize, String.toList_ofList]
  exact isIdentifierChars_sanitizeChars text.toList

end TypeGraph.Text

namespace TypeGraph.NameTable

/-! ## Numbers behind a name -/

theorem toList_numbered (base : String) (number : Nat) :
    (numbered base number).toList = base.toList ++ '_' :: Nat.toDigits 10 number := by
  simp [numbered]

theorem isIdentifier_numbered
    {base : String}
    (identifier : Text.isIdentifier base)
    (number : Nat) :
    Text.isIdentifier (numbered base number) := by
  rw [Text.isIdentifier, toList_numbered]
  refine Text.isIdentifierChars_append identifier ?_
  rw [List.all_cons, Bool.and_eq_true]
  refine ⟨by decide, List.all_eq_true.mpr ?_⟩
  intro c member
  exact Text.isIdentifierPart_of_isDigit
    (Nat.isDigit_of_mem_toDigits (by decide) (by decide) member)

theorem numbered_injective (base : String) : Function.Injective (numbered base) := by
  intro left right equality
  have digits : toString left = toString right :=
    (String.append_right_inj (base ++ "_")).mp equality
  exact Nat.repr_injective digits

end TypeGraph.NameTable
