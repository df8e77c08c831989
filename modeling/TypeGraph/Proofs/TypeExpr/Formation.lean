import TypeGraph.Proofs.TypeExpr.Names
import TypeGraph.Proofs.TypeExpr.Routes

/-!
# Well-formed type expressions

What every type inside of a type that was read has: a path that is not empty, two parts or more, a
place in a tuple if it is spread, and texts that the tokens carry. Only results that are left out
have names from nowhere.
-/

namespace TypeGraph

/-! ## Texts out of tokens -/

/-- Whether the key of a member is the text of a token. -/
def Member.KeyIn (tokens : List Token) : Member → Prop
  | .property key _ => ∃ token ∈ tokens, token.IsKey key
  | .index key _ _ | .mapped key _ _ _ => .name key ∈ tokens

def TypeParameter.NameIn (tokens : List Token) : TypeParameter → Prop
  | .mk name _ _ => .name name ∈ tokens

def Parameter.NameIn (tokens : List Token) : Parameter → Prop
  | .mk name _ => .name name ∈ tokens

/-- Whether a text is a numeral out of some tokens, perhaps behind a minus sign. -/
def NumberIn (tokens : List Token) (text : String) : Prop :=
  ∃ sign numeral, text = sign ++ numeral ∧ sign ∈ ["", "-"] ∧ .number numeral ∈ tokens ∧
    numeral.toList ∈ Lexicon.numeral

/-- Whether the numerals among some tokens are spelled as numerals are. -/
def TokenNumerals (tokens : List Token) : Prop :=
  ∀ numeral, .number numeral ∈ tokens → numeral.toList ∈ Lexicon.numeral

theorem Cut.tokenNumerals
    {text rest : List Char} {tokens : List Token} (cut : Cut text tokens rest) :
    TokenNumerals tokens := by
  induction cut with
  | done =>
      exact fun _ member => absurd member List.not_mem_nil
  | skip _ _ inner =>
      exact inner
  | token scanned _ inner =>
      intro numeral member
      rcases List.mem_cons.mp member with same | later
      · have declared := Scan.declared_of_next? scanned
        rw [← same] at declared
        generalize Scan.spelling _ = spelling at declared
        cases declared with
        | number isNumeral =>
            rwa [String.toList_ofList]
      · exact inner numeral later

namespace TypeExpr

/-- Whether a type has what it holds besides other types out of some tokens, and as many types as it
has to join. -/
def Holds (tokens : List Token) : TypeExpr → Prop
  | .reference path _ => path ≠ [] ∧ ∀ name ∈ path, .name name ∈ tokens
  | .string text => .string text ∈ tokens
  | .number text => NumberIn tokens text
  | .object members => ∀ member ∈ members, member.KeyIn tokens
  | .union parts | .intersection parts => 2 ≤ parts.length
  | .operation operator _ =>
    operator.word ∈ ["keyof", "typeof", "readonly", "unique"] ∧ .name operator.word ∈ tokens
  | .function typeParameters parameters _ =>
    (∀ parameter ∈ typeParameters, parameter.NameIn tokens) ∧
      ∀ parameter ∈ parameters, parameter.NameIn tokens
  | .infer name => .name name ∈ tokens
  | .tuple _ | .array _ | .indexed _ _ | .rest _ | .conditional _ _ _ _ => True

/-- Whether a type stands for a result that is left out. -/
def IsImplied (type : TypeExpr) : Prop :=
  type = named "any" ∨ type = named "void"

/-- Whether a type and all types inside of it are as they are written. -/
structure WellFormed (tokens : List Token) (type : TypeExpr) : Prop where
  /-- Only a result can be left out. -/
  holds : ∀ route found, type.at? route = some found →
    found.Holds tokens ∨
      found.IsImplied ∧ (type.passed route).getLast?.map Branch.role = some .result
  /-- Only an element of a tuple can be spread. -/
  spread : ∀ route tail, type.at? route = some (.rest tail) →
    ∃ outer step elements, route = outer ++ [step] ∧ type.at? outer = some (.tuple elements) ∧
      elements[step]? = some (.rest tail)

/-! ## Branches -/

/-- Whether a type is spread. -/
def isSpread : TypeExpr → Bool
  | .rest _ => true
  | _ => false

/-- Whether a type may stand where it does in the type around it. -/
structure Placed (tokens : List Token) (outer : TypeExpr) (branch : Branch) : Prop where
  holds : branch.type.Holds tokens ∨ branch.type.IsImplied ∧ branch.role = .result
  spread : branch.type.isSpread → ∃ elements, outer = .tuple elements

/-- Whether all types inside of a type may stand where they do. -/
def AllPlaced (tokens : List Token) (type : TypeExpr) : Prop :=
  ∀ route outer, type.at? route = some outer →
    ∀ branch ∈ outer.branches, Placed tokens outer branch

/-- Whether a type may stand by itself. -/
structure Formed (tokens : List Token) (type : TypeExpr) : Prop where
  holds : type.Holds tokens
  whole : type.isSpread = false
  inside : type.AllPlaced tokens

variable {tokens : List Token} {type : TypeExpr}

theorem allPlaced_of_branches
    (each : ∀ branch ∈ type.branches, Placed tokens type branch ∧ branch.type.AllPlaced tokens) :
    type.AllPlaced tokens := by
  intro route outer leads
  cases route with
  | nil =>
      cases leads
      exact fun branch member => (each branch member).1
  | cons step route =>
      obtain ⟨branch, taken, leads⟩ := exists_branch_of_at? leads
      exact (each branch (List.mem_of_getElem? taken)).2 route outer leads

theorem Formed.placed {branch : Branch} (formed : branch.type.Formed tokens) (outer : TypeExpr) :
    Placed tokens outer branch where
  holds := Or.inl formed.holds
  spread := fun spread => absurd (formed.whole.symm.trans spread) Bool.false_ne_true

theorem allPlaced_of_formed (each : ∀ branch ∈ type.branches, branch.type.Formed tokens) :
    type.AllPlaced tokens :=
  allPlaced_of_branches fun branch member =>
    ⟨(each branch member).placed type, (each branch member).inside⟩

theorem allPlaced_leaf (leaf : type.branches = []) : type.AllPlaced tokens := by
  refine allPlaced_of_branches fun branch member => ?_
  rw [leaf] at member
  cases member

theorem IsImplied.allPlaced (implied : type.IsImplied) : type.AllPlaced tokens := by
  rcases implied with rfl | rfl <;> exact allPlaced_leaf rfl

theorem forall_branches_of_parts
    {role : Role} {parts : List TypeExpr}
    (branches : type.branches = parts.map (.free role))
    (each : ∀ part ∈ parts, part.Formed tokens) :
    ∀ branch ∈ type.branches, branch.type.Formed tokens := by
  rw [branches, List.forall_mem_map]
  exact each

theorem forall_branches_of_optional
    {choice : Option TypeExpr} (each : ∀ type ∈ choice, type.Formed tokens)
    (names : List String) (role : Role) :
    ∀ branch ∈ choice.toList.map (Branch.under names role), branch.type.Formed tokens := by
  rw [List.forall_mem_map]
  exact fun type member => each type (Option.mem_toList.mp member)

theorem formed_reference
    {path : List String} {arguments : List TypeExpr}
    (nonempty : path ≠ []) (named : ∀ name ∈ path, .name name ∈ tokens)
    (each : ∀ argument ∈ arguments, argument.Formed tokens) :
    (reference path arguments).Formed tokens where
  holds := ⟨nonempty, named⟩
  whole := rfl
  inside := allPlaced_of_formed (forall_branches_of_parts rfl each)

/-- One part stands for itself. -/
theorem formed_joined
    {join : List TypeExpr → TypeExpr} {parts : List TypeExpr}
    (holds : ∀ parts, 2 ≤ parts.length → (join parts).Holds tokens)
    (whole : ∀ parts, (join parts).isSpread = false)
    (branches : ∀ parts, (join parts).branches = parts.map (.free .part))
    (nonempty : parts ≠ [])
    (each : ∀ part ∈ parts, part.Formed tokens) :
    (joined join parts).Formed tokens := by
  rcases parts with _ | ⟨first, _ | ⟨second, others⟩⟩
  · exact absurd rfl nonempty
  · exact each first List.mem_cons_self
  · exact ⟨holds _ (by simp), whole _,
      allPlaced_of_formed (forall_branches_of_parts (branches _) each)⟩

/-- An element of a tuple: a type, or one that is spread. -/
inductive Element (tokens : List Token) : TypeExpr → Prop where
  | plain {type : TypeExpr} : type.Formed tokens → Element tokens type
  | spread {tail : TypeExpr} : tail.Formed tokens → Element tokens (.rest tail)

theorem formed_tuple
    {elements : List TypeExpr} (each : ∀ element ∈ elements, Element tokens element) :
    (tuple elements).Formed tokens where
  holds := trivial
  whole := rfl
  inside := by
    refine allPlaced_of_branches ?_
    rw [branches, List.forall_mem_map]
    intro element member
    cases each element member with
    | plain formed =>
        exact ⟨Formed.placed formed _, formed.inside⟩
    | spread formed =>
        refine ⟨⟨Or.inl trivial, fun _ => ⟨elements, rfl⟩⟩, allPlaced_of_formed ?_⟩
        exact List.forall_mem_singleton.mpr formed

end TypeExpr

open TypeExpr

/-- Whether a type parameter has its name out of some tokens and types that may stand by
themselves. -/
structure TypeParameter.Formed (tokens : List Token) (parameter : TypeParameter) : Prop where
  name : parameter.NameIn tokens
  inside : ∀ names, ∀ branch ∈ parameter.branches names, branch.type.Formed tokens

structure Parameter.Formed (tokens : List Token) (parameter : Parameter) : Prop where
  name : parameter.NameIn tokens
  inside : ∀ names, ∀ branch ∈ parameter.branches names, branch.type.Formed tokens

structure Member.Formed (tokens : List Token) (member : Member) : Prop where
  key : member.KeyIn tokens
  inside : ∀ branch ∈ member.branches, branch.type.Formed tokens

/-- A result: a type, or one that is left out. -/
def TypeExpr.Result (tokens : List Token) (type : TypeExpr) : Prop :=
  type.Formed tokens ∨ type.IsImplied

variable {tokens : List Token}

theorem TypeExpr.formed_function
    {typeParameters : List TypeParameter} {parameters : List Parameter} {result : TypeExpr}
    (first : ∀ parameter ∈ typeParameters, parameter.Formed tokens)
    (second : ∀ parameter ∈ parameters, parameter.Formed tokens)
    (last : result.Result tokens) :
    (function typeParameters parameters result).Formed tokens where
  holds := ⟨fun parameter member => (first parameter member).name,
    fun parameter member => (second parameter member).name⟩
  whole := rfl
  inside := by
    refine allPlaced_of_branches fun branch member => ?_
    simp only [branches, List.mem_append, List.mem_flatMap, List.mem_singleton] at member
    rcases member with (⟨parameter, listed, member⟩ | ⟨parameter, listed, member⟩) | rfl
    · have formed := (first parameter listed).inside _ branch member
      exact ⟨formed.placed _, formed.inside⟩
    · have formed := (second parameter listed).inside _ branch member
      exact ⟨formed.placed _, formed.inside⟩
    · rcases last with formed | implied
      · exact ⟨Formed.placed formed _, formed.inside⟩
      · refine ⟨⟨Or.inr ⟨implied, rfl⟩, fun spread => ?_⟩, implied.allPlaced⟩
        rcases implied with rfl | rfl <;> cases spread

theorem TypeExpr.formed_object
    {members : List Member} (each : ∀ member ∈ members, member.Formed tokens) :
    (object members).Formed tokens where
  holds := fun member listed => (each member listed).key
  whole := rfl
  inside := by
    refine allPlaced_of_formed fun branch member => ?_
    obtain ⟨outer, listed, inside⟩ := List.mem_flatMap.mp member
    exact (each outer listed).inside branch inside

/-! ## Phrases -/

namespace Phrase

mutual

/-- Whether the tree of a phrase has its texts out of some tokens and its types where they may
stand. -/
def Formed (tokens : List Token) : Phrase → Prop
  | type tree | union tree | intersection tree | operand tree | primary tree | reference tree
  | function tree => tree.Formed tokens
  | result tree | methodResult tree => tree.Result tokens
  | element tree => tree.Element tokens
  | name text => .name text ∈ tokens
  | typeParameter tree => tree.Formed tokens
  | typeParameters trees | generics trees => ∀ tree ∈ trees, tree.Formed tokens
  | parameter tree => tree.Formed tokens
  | parameters trees => ∀ tree ∈ trees, tree.Formed tokens
  | plainMember tree | member tree => tree.Formed tokens
  | members trees => ∀ tree ∈ trees, tree.Formed tokens
  | clause _ tree => ∀ type ∈ tree, type.Formed tokens
  | separated _ items => items ≠ [] ∧ AllFormed tokens items
  | listed items => AllFormed tokens items

def AllFormed (tokens : List Token) : List Phrase → Prop
  | [] => True
  | item :: items => item.Formed tokens ∧ AllFormed tokens items

end

theorem allFormed_map {α : Type} {phrase : α → Phrase} {values : List α} :
    AllFormed tokens (values.map phrase) ↔ ∀ value ∈ values, (phrase value).Formed tokens := by
  induction values with
  | nil =>
      simp [AllFormed]
  | cons value values inner =>
      rw [List.map_cons, AllFormed, inner, List.forall_mem_cons]

theorem formed_separated_map
    {α : Type} {phrase : α → Phrase} {separator : Separator} {values : List α} :
    (separated separator (values.map phrase)).Formed tokens ↔
      values ≠ [] ∧ ∀ value ∈ values, (phrase value).Formed tokens := by
  rw [Formed, allFormed_map, ne_eq, List.map_eq_nil_iff]

end Phrase

/-- Where the tokens of a phrase are among some others, its tree is formed out of these. -/
theorem Derives.formed
    (numerals : TokenNumerals tokens)
    {own : List Token} {phrase : Phrase} (derives : Derives own phrase)
    (among : own ⊆ tokens) :
    phrase.Formed tokens := by
  induction derives with
  | single _ inner =>
      exact ⟨List.cons_ne_nil _ _, inner among, trivial⟩
  | more _ _ first others =>
      rw [List.append_subset, List.cons_subset] at among
      exact ⟨List.cons_ne_nil _ _, first among.1, (others among.2.2).2⟩
  | nothing =>
      trivial
  | listed _ _ inner =>
      exact (inner (List.append_subset.mp among).1).2
  | noClause =>
      exact fun type member => absurd member (Option.not_mem_none type)
  | clause _ inner =>
      rintro _ ⟨⟩
      exact inner (List.cons_subset.mp among).2
  | unconditional _ inner | primary _ inner | reference _ inner | callable _ inner
  | generics _ inner =>
      exact inner among
  | result _ inner =>
      exact Or.inl (inner among)
  | conditional _ _ _ _ check bound whenTrue whenFalse =>
      simp only [List.append_subset, List.cons_subset] at among
      obtain ⟨checked, _, limited, _, chosen, _, other⟩ := among
      refine ⟨trivial, rfl, allPlaced_of_formed ?_⟩
      simp only [branches, List.forall_mem_cons, Branch.free]
      exact ⟨check checked, bound limited, whenTrue chosen, whenFalse other, List.forall_mem_nil _⟩
  | union _ _ inner =>
      have parts := Phrase.formed_separated_map.mp (inner (List.append_subset.mp among).2)
      exact formed_joined (fun _ => id) (fun _ => rfl) (fun _ => rfl) parts.1 parts.2
  | intersection _ _ inner =>
      have parts := Phrase.formed_separated_map.mp (inner (List.append_subset.mp among).2)
      exact formed_joined (fun _ => id) (fun _ => rfl) (fun _ => rfl) parts.1 parts.2
  | array _ inner =>
      have element := inner (List.append_subset.mp among).1
      exact ⟨trivial, rfl, allPlaced_of_formed (List.forall_mem_singleton.mpr element)⟩
  | indexed _ _ owner index =>
      simp only [List.append_subset, List.cons_subset] at among
      refine ⟨trivial, rfl, allPlaced_of_formed ?_⟩
      exact List.forall_mem_cons.mpr
        ⟨owner among.1, List.forall_mem_singleton.mpr (index among.2.2.1)⟩
  | name text =>
      exact among List.mem_cons_self
  | path _ inner =>
      have path := Phrase.formed_separated_map.mp (inner among)
      exact formed_reference path.1 path.2 (List.forall_mem_nil _)
  | application _ _ path arguments =>
      simp only [List.append_subset, List.cons_subset] at among
      have named := Phrase.formed_separated_map.mp (path among.1)
      exact formed_reference named.1 named.2 (Phrase.allFormed_map.mp (arguments among.2.2.1))
  | string text =>
      exact ⟨among List.mem_cons_self, rfl, allPlaced_leaf rfl⟩
  | number numeral =>
      have member := among List.mem_cons_self
      refine ⟨⟨"", numeral, ?_, by decide, member, numerals numeral member⟩, rfl,
        allPlaced_leaf rfl⟩
      exact String.empty_append.symm
  | negative numeral =>
      have member := (List.cons_subset.mp among).2 List.mem_cons_self
      exact ⟨⟨"-", numeral, rfl, by decide, member, numerals numeral member⟩, rfl,
        allPlaced_leaf rfl⟩
  | tuple _ inner =>
      simp only [List.append_subset, List.cons_subset] at among
      exact formed_tuple (Phrase.allFormed_map.mp (inner among.2.1))
  | object _ inner =>
      simp only [List.append_subset, List.cons_subset] at among
      exact formed_object (inner among.2.1)
  | parenthesized _ inner =>
      simp only [List.append_subset, List.cons_subset] at among
      exact inner among.2.1
  | infer text =>
      exact ⟨(List.cons_subset.mp among).2 List.mem_cons_self, rfl, allPlaced_leaf rfl⟩
  | operation operator _ inner =>
      obtain ⟨word, behind⟩ := List.cons_subset.mp among
      refine ⟨⟨?_, word⟩, rfl, allPlaced_of_formed (List.forall_mem_singleton.mpr (inner behind))⟩
      cases operator <;> decide
  | function _ _ _ _ generics parameters result =>
      simp only [List.append_subset, List.cons_subset] at among
      obtain ⟨_, typed, valued, _, resulting⟩ := among
      exact formed_function (generics typed) (parameters valued) (result resulting)
  | noTypeParameters | noGenerics | noMembers =>
      exact List.forall_mem_nil _
  | typeParameters _ _ inner =>
      simp only [List.append_subset, List.cons_subset] at among
      exact (Phrase.formed_separated_map.mp (inner among.2.1.1)).2
  | typeParameter text _ _ constraint default =>
      simp only [List.append_subset, List.cons_subset] at among
      refine ⟨among.1, fun names => List.forall_mem_append.mpr ⟨?_, ?_⟩⟩
      · exact forall_branches_of_optional (constraint among.2.1) names _
      · exact forall_branches_of_optional (default among.2.2) names _
  | parameters _ inner =>
      simp only [List.append_subset, List.cons_subset] at among
      exact Phrase.allFormed_map.mp (inner among.2.1)
  | parameter text _ _ _ inner =>
      simp only [List.append_subset, List.cons_subset] at among
      exact ⟨among.2.1, fun names => forall_branches_of_optional (inner among.2.2.2) names _⟩
  | predicate _ _ _ inner =>
      simp only [List.append_subset, List.cons_subset] at among
      exact Or.inl (inner among.2.2.2)
  | assertion =>
      exact Or.inr (Or.inr rfl)
  | anyResult =>
      exact Or.inr (Or.inl rfl)
  | methodResult _ inner =>
      exact inner (List.cons_subset.mp among).2
  | element _ _ inner =>
      exact .plain (inner (List.append_subset.mp among).1)
  | spread _ _ inner =>
      simp only [List.append_subset, List.cons_subset] at among
      exact .spread (inner among.2.1)
  | members _ _ _ first others =>
      simp only [List.append_subset] at among
      exact List.forall_mem_cons.mpr ⟨first among.1, others among.2.2⟩
  | member _ _ _ inner =>
      simp only [List.append_subset] at among
      exact inner among.2.2
  | property isKey _ _ inner =>
      simp only [List.append_subset, List.cons_subset] at among
      exact ⟨⟨_, among.1, isKey⟩, List.forall_mem_singleton.mpr (inner among.2.2.2)⟩
  | method isKey _ _ _ _ generics parameters result =>
      simp only [List.append_subset, List.cons_subset] at among
      obtain ⟨key, _, typed, valued, resulting⟩ := among
      have value := formed_function (generics typed) (parameters valued) (result resulting)
      exact ⟨⟨_, key, isKey⟩, List.forall_mem_singleton.mpr value⟩
  | index _ _ _ key value =>
      simp only [List.append_subset, List.cons_subset] at among
      obtain ⟨_, named, _, keyed, _, _, valued⟩ := among
      exact ⟨named, List.forall_mem_cons.mpr
        ⟨key keyed, List.forall_mem_singleton.mpr (value valued)⟩⟩
  | mapped _ _ _ _ _ _ source rename value =>
      simp only [List.append_subset, List.cons_subset] at among
      obtain ⟨_, named, _, sourced, renamed, _, _, _, _, valued⟩ := among
      refine ⟨named, List.forall_mem_cons.mpr ⟨source sourced, List.forall_mem_append.mpr ⟨?_, ?_⟩⟩⟩
      · exact forall_branches_of_optional (rename renamed) _ _
      · exact List.forall_mem_singleton.mpr (value valued)

namespace TypeExpr

/-- A route that is not empty ends with a branch of the type that the rest of it leads to. -/
theorem exists_outer_of_at?
    {type found : TypeExpr} {outer : Route} {step : Nat}
    (leads : type.at? (outer ++ [step]) = some found) :
    ∃ around branch, type.at? outer = some around ∧ around.branches[step]? = some branch ∧
      branch.type = found ∧ (type.passed (outer ++ [step])).getLast? = some branch := by
  rw [at?_append] at leads
  obtain ⟨around, leadsOuter, leadsLast⟩ := Option.bind_eq_some_iff.mp leads
  obtain ⟨branch, taken, same⟩ := exists_branch_of_at? leadsLast
  refine ⟨around, branch, leadsOuter, taken, Option.some.inj same, ?_⟩
  rw [passed_append leadsOuter, passed_cons taken, List.getLast?_append]
  rfl

theorem Formed.wellFormed {type : TypeExpr} (formed : type.Formed tokens) :
    type.WellFormed tokens := by
  constructor
  · intro route found leads
    rcases List.eq_nil_or_concat route with rfl | ⟨outer, step, rfl⟩
    · cases leads
      exact Or.inl formed.holds
    · rw [List.concat_eq_append] at leads ⊢
      obtain ⟨around, branch, leadsOuter, taken, rfl, last⟩ := exists_outer_of_at? leads
      have placed := formed.inside outer around leadsOuter branch (List.mem_of_getElem? taken)
      rw [last]
      exact placed.holds.imp_right fun implied => ⟨implied.1, congrArg some implied.2⟩
  · intro route tail leads
    rcases List.eq_nil_or_concat route with rfl | ⟨outer, step, rfl⟩
    · cases leads
      cases formed.whole
    · rw [List.concat_eq_append] at leads ⊢
      obtain ⟨around, branch, leadsOuter, taken, same, _⟩ := exists_outer_of_at? leads
      have placed := formed.inside outer around leadsOuter branch (List.mem_of_getElem? taken)
      obtain ⟨elements, rfl⟩ := placed.spread (same ▸ rfl)
      refine ⟨outer, step, elements, rfl, leadsOuter, ?_⟩
      rw [branches, List.getElem?_map, Option.map_eq_some_iff] at taken
      obtain ⟨element, stands, rfl⟩ := taken
      rw [stands]
      exact congrArg some same

/-- What a text spells is well formed out of the tokens of the text. -/
theorem wellFormed_of_parse
    {text : String} {type : TypeExpr} (parsed : parse text = .ok type) :
    ∃ lexemes, Lexeme.ofTypeText text = .ok lexemes ∧
      type.WellFormed (lexemes.map Lexeme.token) := by
  obtain ⟨lexemes, ran, spelled⟩ := exists_lexemes_of_parse parsed
  have numerals := (Cut.of_allFrom ran).tokenNumerals
  have formed : type.Formed (lexemes.map Lexeme.token) :=
    (TypeReader.derives_of_ofLexemes spelled).formed numerals (List.Subset.refl _)
  exact ⟨lexemes, Lexeme.ofTypeText_eq_ok_iff.mpr ran, formed.wellFormed⟩

/-- An element that is spread, a number behind its sign, an assertion without a type, and a method
without a result. -/
def spreadText : String :=
  "[...keyof A.B, -1.5, () => asserts x] | \x7b m() \x7d"

def spreadType : TypeExpr :=
  .union
    [.tuple
      [.rest (.operation .keyOf (.reference ["A", "B"] [])), .number "-1.5",
        .function [] [] (.named "void")],
      .object [.property "m" (.function [] [] (.named "any"))]]

theorem wellFormed_of_parse_spread :
    parse spreadText = .ok spreadType ∧
      ∃ lexemes, Lexeme.ofTypeText spreadText = .ok lexemes ∧
        spreadType.WellFormed (lexemes.map Lexeme.token) := by
  have parsed : parse spreadText = .ok spreadType := by
    with_unfolding_all rfl
  exact ⟨parsed, wellFormed_of_parse parsed⟩

end TypeExpr

end TypeGraph
