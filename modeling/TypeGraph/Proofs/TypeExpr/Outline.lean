import TypeGraph.Proofs.TypeExpr.Productions

/-!
# Outlines of type texts

The outline of a type text is its sequence of tokens without the texts of its string literals. It
decides whether the text is a type expression and what that refers to.
-/

namespace TypeGraph

namespace TypeExpr

/-- The tokens of a text, with nothing in its string literals. -/
def outline? (text : String) : Option (List Token) :=
  match Lexeme.ofTypeText text with
  | .ok lexemes => some (lexemes.map fun lexeme => lexeme.token.mapText fun _ => "")
  | .error _ => none

def outlined : Alignment where
  lexeme left right := left.token.mapText (fun _ => "") = right.token.mapText fun _ => ""
  text _ := ""
  back := []
  shallower := False
  mapText_token := id
  back_ends := nofun

open TypeReader in
/-- Lexemes with one outline spell types that differ in the texts of string literals only. -/
theorem exists_ofLexemes_of_outlined
    {left right : List Lexeme} {type : TypeExpr}
    (aligned : List.Forall₂ outlined.lexeme left right)
    (spelled : ofLexemes? left = .ok type) :
    ∃ other, ofLexemes? right = .ok other ∧ other.references = type.references := by
  have levels : Levels outlined (level greatestNesting) (level greatestNesting) :=
    levels_level (Nat.le_refl _) fun less => absurd less (Nat.lt_irrefl _)
  have agree := levels.type aligned
  unfold ofLexemes? at spelled ⊢
  split at spelled
  · cases spelled
  · next value ran =>
    cases spelled
    rw [ran] at agree
    obtain ⟨_, after, rests, ⟨other, same, outcome⟩ | ⟨impossible, _⟩ | ⟨impossible, _⟩⟩ := agree
    · cases rests
      change _ = Except.ok (other, []) at outcome
      rw [outlined, List.append_nil] at outcome
      rw [outcome]
      refine ⟨other, rfl, ?_⟩
      rw [← references_mapText _ other, same, references_mapText]
    · exact impossible.elim
    · exact absurd trivial impossible
  · cases spelled

theorem exists_parse_of_outline
    {left right : String} {type : TypeExpr}
    (same : outline? left = outline? right)
    (spelled : parse left = .ok type) :
    ∃ other, parse right = .ok other ∧ other.references = type.references := by
  rw [parse] at spelled ⊢
  rw [outline?, outline?] at same
  cases leftLexemes : Lexeme.ofTypeText left with
  | error error =>
      rw [leftLexemes] at spelled
      cases spelled
  | ok lexemes =>
      cases rightLexemes : Lexeme.ofTypeText right with
      | error error =>
          rw [leftLexemes, rightLexemes] at same
          cases same
      | ok others =>
          rw [leftLexemes] at same spelled
          rw [rightLexemes] at same
          have aligned := Option.some.inj same
          rw [← List.forall₂_eq_eq_eq, List.forall₂_map_left_iff, List.forall₂_map_right_iff]
            at aligned
          exact exists_ofLexemes_of_outlined aligned spelled

end TypeExpr

end TypeGraph
