import Mathlib.Data.List.Chain
import Mathlib.Dynamics.FixedPoints.Basic
import TypeGraph.Proofs.Naming.Identifier
import TypeGraph.Proofs.TypeExpr.Cut

/-!
# Sanitized identifiers

The shape of sanitized texts, told apart from the steps of sanitizing. The texts of that shape are
those that sanitizing leaves as they are, and those that it gives.
-/

namespace TypeGraph.Text

/-- Whether two neighbours are not both underscores. -/
def NotBothUnderscores (left right : Char) : Prop :=
  ¬ (left = '_' ∧ right = '_')

/-- Whether characters are letters, digits and single underscores, without a digit in front, an
underscore behind, or nothing but an underscore. -/
structure IsSanitized (text : List Char) : Prop where
  starts : ∃ first ∈ text.head?, first.isAlpha ∨ first = '_'
  parts : ∀ c ∈ text, c.isAlphanum ∨ c = '_'
  single : text.IsChain NotBothUnderscores
  named : ∃ c ∈ text, c.isAlphanum
  ends : text.getLast? ≠ some '_'

/-! ## The steps on texts of the shape -/

theorem underscored_of_part {c : Char} (part : c.isAlphanum ∨ c = '_') : underscored c = c := by
  rcases part with alphanumeric | rfl
  · exact if_pos alphanumeric
  · rfl

theorem squeeze_of_isChain {text : List Char} (single : text.IsChain NotBothUnderscores) :
    squeeze text = text := by
  induction text with
  | nil =>
      rfl
  | cons c rest inner =>
      rw [List.isChain_cons] at single
      rw [squeeze_cons, inner single.2, if_neg]
      rintro ⟨same, next⟩
      exact single.1 '_' next ⟨same, rfl⟩

theorem dropFinalUnderscores_of_ends {text : List Char} (ends : text.getLast? ≠ some '_') :
    dropFinalUnderscores text = text := by
  induction text with
  | nil =>
      rfl
  | cons c rest inner =>
      rw [dropFinalUnderscores_cons]
      cases rest with
      | nil =>
          rw [if_neg]
          · rfl
          · rintro ⟨rfl, _⟩
            exact ends rfl
      | cons next rest =>
          rw [List.getLast?_cons_cons] at ends
          rw [inner ends, if_neg]
          rintro ⟨_, impossible⟩
          cases impossible

theorem IsSanitized.sanitizeChars_eq {text : List Char} (sanitized : IsSanitized text) :
    sanitizeChars text = text := by
  have kept : text.map underscored = text :=
    (List.map_congr_left fun c member => underscored_of_part (sanitized.parts c member)).trans
      (List.map_id text)
  have guarded : guardDigit text = text := by
    obtain ⟨first, front, start⟩ := sanitized.starts
    cases text with
    | nil =>
        cases front
    | cons c rest =>
        cases front
        have notDigit : ¬ first.isDigit := by
          intro digit
          rcases start with letter | rfl
          · rw [Scan.isAlpha_iff] at letter
            rw [Scan.isDigit_iff] at digit
            omega
          · cases digit
        exact if_neg notDigit
  have nonempty : text ≠ [] := by
    rintro rfl
    obtain ⟨c, member, _⟩ := sanitized.named
    cases member
  rw [sanitizeChars, kept, squeeze_of_isChain sanitized.single, guarded,
    dropFinalUnderscores_of_ends sanitized.ends]
  split
  · contradiction
  · rfl

/-! ## What the steps give -/

theorem isChain_squeeze (text : List Char) : (squeeze text).IsChain NotBothUnderscores := by
  induction text with
  | nil =>
      exact .nil
  | cons c rest inner =>
      rw [squeeze_cons]
      split
      · exact inner
      · next apart =>
        rw [List.isChain_cons]
        refine ⟨?_, inner⟩
        rintro next front ⟨rfl, rfl⟩
        exact apart ⟨rfl, front⟩

theorem isChain_guardDigit {text : List Char} (single : text.IsChain NotBothUnderscores) :
    (guardDigit text).IsChain NotBothUnderscores := by
  cases text with
  | nil =>
      exact .nil
  | cons first rest =>
      rw [guardDigit]
      split
      · next digit =>
        refine .cons_cons ?_ single
        rintro ⟨_, rfl⟩
        cases digit
      · exact single

theorem getLast?_dropFinalUnderscores (text : List Char) :
    (dropFinalUnderscores text).getLast? ≠ some '_' := by
  induction text with
  | nil =>
      exact nofun
  | cons c rest inner =>
      rw [dropFinalUnderscores_cons]
      split
      · exact nofun
      · next kept =>
        cases trimmed : dropFinalUnderscores rest with
        | nil =>
            rintro last
            cases last
            exact kept ⟨rfl, trimmed⟩
        | cons next others =>
            rw [List.getLast?_cons_cons, ← trimmed]
            exact inner

/-- Of an identifier only the underscores are left to look at. -/
theorem isSanitized_of_identifier
    {text : List Char}
    (identifier : isIdentifierChars text)
    (single : text.IsChain NotBothUnderscores)
    (ends : text.getLast? ≠ some '_') :
    IsSanitized text := by
  cases text with
  | nil =>
      cases identifier
  | cons first rest =>
      rw [isIdentifierChars, Bool.and_eq_true, List.all_eq_true] at identifier
      have starts : first.isAlpha ∨ first = '_' := by
        simpa [isIdentifierStart] using identifier.1
      have parts : ∀ c ∈ first :: rest, c.isAlphanum ∨ c = '_' := by
        rw [List.forall_mem_cons]
        constructor
        · rcases starts with letter | underscore
          · simp [Char.isAlphanum, letter]
          · exact Or.inr underscore
        · intro c member
          simpa [isIdentifierPart] using identifier.2 c member
      refine ⟨⟨first, rfl, starts⟩, parts, single, ?_, ends⟩
      have nonempty := List.cons_ne_nil first rest
      have final := List.getLast_mem nonempty
      rcases parts _ final with alphanumeric | underscore
      · exact ⟨_, final, alphanumeric⟩
      · rw [List.getLast?_eq_some_getLast nonempty, underscore] at ends
        exact absurd rfl ends

theorem isSanitized_sanitizeChars (text : List Char) : IsSanitized (sanitizeChars text) := by
  apply isSanitized_of_identifier (isIdentifierChars_sanitizeChars text)
  · unfold sanitizeChars
    split
    · simp [fallbackIdentifier, NotBothUnderscores]
    · have guarded := isChain_guardDigit (isChain_squeeze (text.map underscored))
      obtain ⟨underscores, trimmed⟩ :=
        dropFinalUnderscores_prefix (guardDigit (squeeze (text.map underscored)))
      rw [← trimmed] at guarded
      exact guarded.left_of_append
  · unfold sanitizeChars
    split
    · decide
    · exact getLast?_dropFinalUnderscores _

theorem sanitize_eq_self_iff (text : String) : sanitize text = text ↔ IsSanitized text.toList := by
  constructor
  · intro fixed
    have sanitized := isSanitized_sanitizeChars text.toList
    rwa [← String.toList_ofList (l := sanitizeChars text.toList), ← sanitize, fixed] at sanitized
  · intro sanitized
    rw [sanitize, sanitized.sanitizeChars_eq, String.ofList_toList]

theorem isSanitized_sanitize (text : String) : IsSanitized (sanitize text).toList := by
  rw [sanitize, String.toList_ofList]
  exact isSanitized_sanitizeChars text.toList

/-- Sanitizing gives exactly the texts that it leaves as they are, and these are the texts of one
shape. -/
theorem range_sanitize :
    (∀ text, IsSanitized (sanitize text).toList) ∧
      (∀ text, sanitize text = text ↔ IsSanitized text.toList) ∧
      Set.range sanitize = Function.fixedPoints sanitize ∧
      Set.range sanitize = {text | IsSanitized text.toList} ∧
      (∀ text, sanitize (sanitize text) = sanitize text) ∧
      ∀ text, isIdentifier (sanitize text) := by
  have idempotent : ∀ text, sanitize (sanitize text) = sanitize text := fun text =>
    (sanitize_eq_self_iff _).mpr (isSanitized_sanitize text)
  have range : Set.range sanitize = Function.fixedPoints sanitize := by
    ext text
    constructor
    · rintro ⟨other, rfl⟩
      exact idempotent other
    · intro fixed
      exact ⟨text, fixed⟩
  refine ⟨isSanitized_sanitize, sanitize_eq_self_iff, range, ?_, idempotent,
    isIdentifier_sanitize⟩
  rw [range]
  ext text
  exact sanitize_eq_self_iff text

example : sanitize "_ 1st.é_" = "_1st" ∧ sanitize "__" = "node" := by
  decide

end TypeGraph.Text
