import TypeGraph.Proofs.TypeExpr.Names

/-!
# The order of references

The references of a type expression are listed in the order in which the text writes their paths.
-/

namespace TypeGraph

/-- Whether some tokens write paths one behind the other, but for the names that stand for results
left out. -/
inductive Mentions : List Token → List (List String) → Prop where
  | nothing : Mentions [] []
  | skip {tokens : List Token} {paths : List (List String)} (head : Token) :
      Mentions tokens paths → Mentions (head :: tokens) paths
  | path {path : List String} {written tokens : List Token} {paths : List (List String)} :
      Derives written (.separated .dot (path.map .name)) → Mentions tokens paths →
      Mentions (written ++ tokens) (path :: paths)
  | implied {name : String} {tokens : List Token} {paths : List (List String)} :
      name = "any" ∨ name = "void" → Mentions tokens paths → Mentions tokens ([name] :: paths)

namespace Mentions

theorem append
    {first second : List Token} {paths others : List (List String)}
    (left : Mentions first paths) (right : Mentions second others) :
    Mentions (first ++ second) (paths ++ others) := by
  induction left with
  | nothing =>
      exact right
  | skip head _ inner =>
      exact .skip head inner
  | path written _ inner =>
      rw [List.append_assoc]
      exact .path written inner
  | implied name _ inner =>
      exact .implied name inner

theorem none (tokens : List Token) : Mentions tokens [] := by
  induction tokens with
  | nil =>
      exact .nothing
  | cons head _ inner =>
      exact .skip head inner

theorem behind
    {tokens : List Token} {paths : List (List String)} (mentions : Mentions tokens paths)
    (front : List Token) :
    Mentions (front ++ tokens) paths :=
  (none front).append mentions

theorem before
    {tokens : List Token} {paths : List (List String)} (mentions : Mentions tokens paths)
    (back : List Token) :
    Mentions (tokens ++ back) paths := by
  have whole := mentions.append (none back)
  rwa [List.append_nil] at whole

end Mentions

variable {bound : List String}

namespace TypeExpr

theorem mentions_reference
    {path : List String} {arguments : List TypeExpr} {written tokens : List Token}
    (spells : Derives written (.separated .dot (path.map .name)))
    (inside : Mentions tokens (referencesOfAll bound arguments)) :
    Mentions (written ++ tokens) ((reference path arguments).referencesWithin bound) := by
  have visited : Mentions (written ++ tokens) (path :: referencesOfAll bound arguments) :=
    .path spells inside
  rcases path with _ | ⟨first, _ | ⟨second, rest⟩⟩
  · exact visited
  · rw [referencesWithin]
    split
    · exact inside.behind written
    · exact visited
  · exact visited

theorem mentions_implied {name : String} (implied : name = "any" ∨ name = "void")
    (tokens : List Token) :
    Mentions tokens ((named name).referencesWithin bound) := by
  have visited : Mentions tokens [[name]] := .implied implied (.none tokens)
  rw [named, referencesWithin]
  split
  · exact .none tokens
  · exact visited

theorem referencesWithin_joined
    {join : List TypeExpr → TypeExpr} {parts : List TypeExpr}
    (joins : (join parts).referencesWithin bound = referencesOfAll bound parts) :
    (joined join parts).referencesWithin bound = referencesOfAll bound parts := by
  unfold joined
  split
  · exact (List.append_nil _).symm
  · exact joins

end TypeExpr

namespace Phrase

mutual

/-- The references of a phrase in the scope of some names. -/
def referencesWithin (bound : List String) : Phrase → List (List String)
  | type tree | union tree | intersection tree | operand tree | primary tree | reference tree
  | function tree | result tree | element tree | methodResult tree => tree.referencesWithin bound
  | name _ => []
  | typeParameter tree => tree.referencesWithin bound
  | typeParameters trees | generics trees => referencesOfTypeParameters bound trees
  | parameter tree => tree.referencesWithin bound
  | parameters trees => referencesOfParameters bound trees
  | plainMember tree | member tree => tree.referencesWithin bound
  | members trees => referencesOfMembers bound trees
  | clause _ tree => referencesOfOptional bound tree
  | separated _ items | listed items => referencesOfItems bound items

def referencesOfItems (bound : List String) : List Phrase → List (List String)
  | [] => []
  | item :: items => item.referencesWithin bound ++ referencesOfItems bound items

end

theorem referencesOfItems_map {α : Type} (phrase : α → Phrase) (values : List α) :
    referencesOfItems bound (values.map phrase) =
      values.flatMap fun value => (phrase value).referencesWithin bound := by
  induction values with
  | nil =>
      rfl
  | cons value values inner =>
      rw [List.map_cons, referencesOfItems, inner, List.flatMap_cons]

theorem referencesOfItems_types
    {phrase : TypeExpr → Phrase}
    (same : ∀ tree, (phrase tree).referencesWithin bound = tree.referencesWithin bound)
    (trees : List TypeExpr) :
    referencesOfItems bound (trees.map phrase) = referencesOfAll bound trees := by
  rw [referencesOfItems_map, referencesOfAll_eq_flatMap]
  exact congrArg (trees.flatMap ·) (funext same)

end Phrase

/-- The tokens of a phrase write what it refers to in the order of the walk. -/
theorem Derives.mentions
    {tokens : List Token} {phrase : Phrase} (derives : Derives tokens phrase)
    (bound : List String) :
    Mentions tokens (phrase.referencesWithin bound) := by
  induction derives generalizing bound with
  | single _ inner =>
      have item := inner bound
      rwa [Phrase.referencesWithin, Phrase.referencesOfItems, Phrase.referencesOfItems,
        List.append_nil]
  | more _ _ first others =>
      exact (first bound).append (.skip _ (others bound))
  | nothing | noClause | noGenerics | noMembers =>
      exact .nothing
  | noTypeParameters | string | number | negative | infer | name =>
      exact .none _
  | listed _ _ inner =>
      exact (inner bound).before _
  | clause _ inner | operation _ _ inner | methodResult _ inner =>
      exact .skip _ (inner bound)
  | unconditional _ inner | primary _ inner | reference _ inner | callable _ inner
  | result _ inner | generics _ inner =>
      exact inner bound
  | conditional _ _ _ _ check limit whenTrue whenFalse =>
      rw [Phrase.referencesWithin, TypeExpr.referencesWithin, List.append_assoc, List.append_assoc]
      refine (check bound).append (.skip _ ((limit bound).append (.skip _ ?_)))
      exact (whenTrue _).append (.skip _ (whenFalse bound))
  | union _ _ inner =>
      have parts := inner bound
      rw [Phrase.referencesWithin, Phrase.referencesOfItems_types fun _ => rfl] at parts
      rw [Phrase.referencesWithin, TypeExpr.referencesWithin_joined rfl]
      exact parts.behind _
  | intersection _ _ inner =>
      have parts := inner bound
      rw [Phrase.referencesWithin, Phrase.referencesOfItems_types fun _ => rfl] at parts
      rw [Phrase.referencesWithin, TypeExpr.referencesWithin_joined rfl]
      exact parts.behind _
  | array _ inner =>
      exact (inner bound).before _
  | indexed _ _ owner index =>
      exact (owner bound).append (.skip _ ((index bound).before _))
  | path written _ =>
      have empty : Mentions [] (referencesOfAll bound []) := .nothing
      have alone := TypeExpr.mentions_reference written empty
      rwa [List.append_nil] at alone
  | application written _ _ arguments =>
      have inside := arguments bound
      rw [Phrase.referencesWithin, Phrase.referencesOfItems_types fun _ => rfl] at inside
      exact TypeExpr.mentions_reference written (.skip _ (inside.before _))
  | tuple _ inner =>
      have elements := inner bound
      rw [Phrase.referencesWithin, Phrase.referencesOfItems_types fun _ => rfl] at elements
      exact .skip _ (elements.before _)
  | object _ inner | parenthesized _ inner =>
      exact .skip _ ((inner bound).before _)
  | function _ _ _ _ generics parameters result =>
      rw [Phrase.referencesWithin, TypeExpr.referencesWithin, List.append_assoc]
      exact ((generics _).append ((parameters _).append (.skip _ (result _)))).behind _
  | typeParameters _ _ inner =>
      have items := inner bound
      rw [Phrase.referencesWithin, Phrase.referencesOfItems_map] at items
      rw [Phrase.referencesWithin, referencesOfTypeParameters_eq_flatMap]
      exact .skip _ ((items.before _).before _)
  | typeParameter _ _ _ constraint default =>
      exact .skip _ ((constraint bound).append (default bound))
  | parameters _ inner =>
      have items := inner bound
      rw [Phrase.referencesWithin, Phrase.referencesOfItems_map] at items
      rw [Phrase.referencesWithin, referencesOfParameters_eq_flatMap]
      exact .skip _ (items.before _)
  | parameter _ _ _ _ inner =>
      exact (.skip _ ((inner bound).behind _) : Mentions (_ :: _) _).behind _
  | predicate _ _ _ inner =>
      exact (.skip _ (.skip _ (inner bound)) : Mentions (_ :: _ :: _) _).behind _
  | assertion =>
      exact TypeExpr.mentions_implied (Or.inr rfl) _
  | anyResult =>
      exact TypeExpr.mentions_implied (Or.inl rfl) _
  | element _ _ inner =>
      exact (inner bound).before _
  | spread _ _ inner =>
      exact .skip _ ((inner bound).before _)
  | members _ _ _ first others =>
      exact (first bound).append ((others bound).behind _)
  | member _ _ _ inner =>
      exact ((inner bound).behind _).behind _
  | property _ _ _ inner =>
      exact .skip _ ((.skip _ (inner bound) : Mentions (_ :: _) _).behind _)
  | method _ _ _ _ _ generics parameters result =>
      rw [Phrase.referencesWithin, Member.referencesWithin, TypeExpr.referencesWithin,
        List.append_assoc]
      exact .skip _ (((generics _).append ((parameters _).append (result _))).behind _)
  | index _ _ _ key value =>
      refine .skip _ (.skip _ (.skip _ ((key bound).append (.skip _ (.skip _ (value bound))))))
  | mapped _ _ _ _ _ _ source rename value =>
      rw [Phrase.referencesWithin, Member.referencesWithin, List.append_assoc]
      refine .skip _ (.skip _ (.skip _ ((source bound).append ((rename _).append (.skip _ ?_)))))
      exact ((.skip _ (value _) : Mentions (_ :: _) _).behind _).behind _

end TypeGraph
