import TypeGraph.Proofs.TypeExpr.Lexicon
import TypeGraph.Proofs.TypeExpr.Soundness
import TypeGraph.Proofs.TypeExpr.Spelling
import TypeGraph.TypeExpr.References

/-!
# Names of references

A type expression refers to names of its text, and otherwise only to the two names that stand for
results left out. All of them are spelled as names are.
-/

namespace TypeGraph

/-- Whether the names of some references are of one kind. -/
def Confined (allowed : String → Prop) (references : List (List String)) : Prop :=
  ∀ path ∈ references, ∀ name ∈ path, allowed name

/-- Whether the names among some tokens are of one kind. -/
def TokenNames (allowed : String → Prop) (tokens : List Token) : Prop :=
  ∀ token ∈ tokens, ∀ text, token = .name text → allowed text

variable {allowed : String → Prop}

theorem confined_nil : Confined allowed [] :=
  List.forall_mem_nil _

theorem confined_append {first second : List (List String)} :
    Confined allowed (first ++ second) ↔ Confined allowed first ∧ Confined allowed second :=
  List.forall_mem_append

theorem confined_flatMap
    {α : Type} {items : List α} {references : α → List (List String)}
    (each : ∀ item ∈ items, Confined allowed (references item)) :
    Confined allowed (items.flatMap references) := by
  intro path member
  obtain ⟨item, listed, inside⟩ := List.mem_flatMap.mp member
  exact each item listed path inside

theorem tokenNames_append {first second : List Token} :
    TokenNames allowed (first ++ second) ↔ TokenNames allowed first ∧ TokenNames allowed second :=
  List.forall_mem_append

theorem tokenNames_cons {head : Token} {tail : List Token} :
    TokenNames allowed (head :: tail) ↔
      (∀ text, head = .name text → allowed text) ∧ TokenNames allowed tail :=
  List.forall_mem_cons

/-! ## References of lists -/

theorem referencesOfAll_eq_flatMap (bound : List String) (types : List TypeExpr) :
    referencesOfAll bound types = types.flatMap (TypeExpr.referencesWithin bound) := by
  induction types with
  | nil =>
      rfl
  | cons type types inner =>
      rw [referencesOfAll, inner, List.flatMap_cons]

theorem referencesOfMembers_eq_flatMap (bound : List String) (members : List Member) :
    referencesOfMembers bound members = members.flatMap (Member.referencesWithin bound) := by
  induction members with
  | nil =>
      rfl
  | cons member members inner =>
      rw [referencesOfMembers, inner, List.flatMap_cons]

theorem referencesOfTypeParameters_eq_flatMap
    (bound : List String) (parameters : List TypeParameter) :
    referencesOfTypeParameters bound parameters =
      parameters.flatMap (TypeParameter.referencesWithin bound) := by
  induction parameters with
  | nil =>
      rfl
  | cons parameter parameters inner =>
      rw [referencesOfTypeParameters, inner, List.flatMap_cons]

theorem referencesOfParameters_eq_flatMap (bound : List String) (parameters : List Parameter) :
    referencesOfParameters bound parameters =
      parameters.flatMap (Parameter.referencesWithin bound) := by
  induction parameters with
  | nil =>
      rfl
  | cons parameter parameters inner =>
      rw [referencesOfParameters, inner, List.flatMap_cons]

/-! ## Trees -/

namespace TypeExpr

/-- Whether the names that a type refers to, in any scope, are of one kind. -/
def Names (allowed : String → Prop) (type : TypeExpr) : Prop :=
  ∀ bound, Confined allowed (type.referencesWithin bound)

theorem confined_referencesOfAll
    {types : List TypeExpr} (each : ∀ type ∈ types, type.Names allowed) (bound : List String) :
    Confined allowed (referencesOfAll bound types) := by
  rw [referencesOfAll_eq_flatMap]
  exact confined_flatMap fun type listed => each type listed bound

theorem names_reference
    {path : List String} {arguments : List TypeExpr}
    (named : ∀ name ∈ path, allowed name)
    (each : ∀ type ∈ arguments, type.Names allowed) :
    (reference path arguments).Names allowed := by
  intro bound
  have inside := confined_referencesOfAll each bound
  have whole : Confined allowed (path :: referencesOfAll bound arguments) :=
    List.forall_mem_cons.mpr ⟨named, inside⟩
  rcases path with _ | ⟨first, _ | ⟨second, rest⟩⟩
  · exact whole
  · rw [referencesWithin]
    split
    · exact inside
    · exact whole
  · exact whole

theorem names_joined
    {join : List TypeExpr → TypeExpr} {parts : List TypeExpr}
    (joins : ∀ bound, (join parts).referencesWithin bound = referencesOfAll bound parts)
    (each : ∀ part ∈ parts, part.Names allowed) :
    (joined join parts).Names allowed := by
  unfold joined
  split
  · exact each _ List.mem_cons_self
  · intro bound
    rw [joins]
    exact confined_referencesOfAll each bound

end TypeExpr

namespace Phrase

mutual

/-- Whether the names that a phrase refers to are of one kind. -/
def Names (allowed : String → Prop) : Phrase → Prop
  | type tree | union tree | intersection tree | operand tree | primary tree | reference tree
  | function tree | result tree | element tree | methodResult tree => tree.Names allowed
  | name text => allowed text
  | typeParameter tree => ∀ bound, Confined allowed (tree.referencesWithin bound)
  | typeParameters trees | generics trees =>
    ∀ bound, Confined allowed (referencesOfTypeParameters bound trees)
  | parameter tree => ∀ bound, Confined allowed (tree.referencesWithin bound)
  | parameters trees => ∀ bound, Confined allowed (referencesOfParameters bound trees)
  | plainMember tree | member tree => ∀ bound, Confined allowed (tree.referencesWithin bound)
  | members trees => ∀ bound, Confined allowed (referencesOfMembers bound trees)
  | clause _ tree => ∀ bound, Confined allowed (referencesOfOptional bound tree)
  | separated _ items | listed items => NamesOfAll allowed items

def NamesOfAll (allowed : String → Prop) : List Phrase → Prop
  | [] => True
  | item :: items => item.Names allowed ∧ NamesOfAll allowed items

end

theorem namesOfAll_map {α : Type} {phrase : α → Phrase} {values : List α} :
    NamesOfAll allowed (values.map phrase) ↔ ∀ value ∈ values, (phrase value).Names allowed := by
  induction values with
  | nil =>
      simp [NamesOfAll]
  | cons value values inner =>
      rw [List.map_cons, NamesOfAll, inner, List.forall_mem_cons]

end Phrase

/-- What a phrase refers to are names among its tokens, or the implied results. -/
theorem Derives.names
    (any : allowed "any") (void : allowed "void")
    {tokens : List Token} {phrase : Phrase} (derives : Derives tokens phrase)
    (named : TokenNames allowed tokens) :
    phrase.Names allowed := by
  induction derives with
  | single _ inner =>
      exact ⟨inner named, trivial⟩
  | more _ _ first others =>
      rw [tokenNames_append, tokenNames_cons] at named
      exact ⟨first named.1, others named.2.2⟩
  | nothing =>
      trivial
  | listed _ _ inner =>
      exact inner (tokenNames_append.mp named).1
  | noClause | noGenerics | noTypeParameters | noMembers | string | number | negative | infer =>
      exact fun _ => confined_nil
  | clause _ inner | operation _ _ inner | methodResult _ inner =>
      exact inner (tokenNames_cons.mp named).2
  | unconditional _ inner | primary _ inner | reference _ inner | callable _ inner
  | result _ inner | generics _ inner =>
      exact inner named
  | conditional _ _ _ _ check limit whenTrue whenFalse =>
      simp only [tokenNames_append, tokenNames_cons] at named
      obtain ⟨checked, _, limited, _, chosen, _, other⟩ := named
      intro bound
      rw [TypeExpr.referencesWithin]
      simp only [confined_append]
      exact ⟨⟨⟨check checked _, limit limited _⟩, whenTrue chosen _⟩, whenFalse other _⟩
  | union _ _ inner =>
      have each := inner (tokenNames_append.mp named).2
      exact TypeExpr.names_joined (fun _ => rfl) (Phrase.namesOfAll_map.mp each)
  | intersection _ _ inner =>
      have each := inner (tokenNames_append.mp named).2
      exact TypeExpr.names_joined (fun _ => rfl) (Phrase.namesOfAll_map.mp each)
  | array _ inner =>
      exact inner (tokenNames_append.mp named).1
  | indexed _ _ object index =>
      simp only [tokenNames_append, tokenNames_cons] at named
      intro bound
      rw [TypeExpr.referencesWithin, confined_append]
      exact ⟨object named.1 _, index named.2.2.1 _⟩
  | name text =>
      exact named _ List.mem_cons_self text rfl
  | path _ inner =>
      exact TypeExpr.names_reference (Phrase.namesOfAll_map.mp (inner named)) (List.forall_mem_nil _)
  | application _ _ path arguments =>
      rw [tokenNames_append, tokenNames_cons, tokenNames_append] at named
      exact TypeExpr.names_reference (Phrase.namesOfAll_map.mp (path named.1))
        (Phrase.namesOfAll_map.mp (arguments named.2.2.1))
  | tuple _ inner =>
      rw [tokenNames_cons, tokenNames_append] at named
      have each := Phrase.namesOfAll_map.mp (inner named.2.1)
      exact TypeExpr.confined_referencesOfAll each
  | object _ inner =>
      rw [tokenNames_cons, tokenNames_append] at named
      exact inner named.2.1
  | parenthesized _ inner =>
      rw [tokenNames_cons, tokenNames_append] at named
      exact inner named.2.1
  | function _ _ _ _ generics parameters result =>
      simp only [tokenNames_append, tokenNames_cons] at named
      obtain ⟨_, typed, valued, _, resulting⟩ := named
      intro bound
      rw [TypeExpr.referencesWithin]
      simp only [confined_append]
      exact ⟨⟨generics typed _, parameters valued _⟩, result resulting _⟩
  | typeParameters _ _ inner =>
      simp only [tokenNames_append, tokenNames_cons] at named
      have each := Phrase.namesOfAll_map.mp (inner named.2.1.1)
      intro bound
      rw [referencesOfTypeParameters_eq_flatMap]
      exact confined_flatMap fun parameter listed => each parameter listed bound
  | typeParameter _ _ _ constraint default =>
      simp only [tokenNames_append, tokenNames_cons] at named
      intro bound
      rw [TypeParameter.referencesWithin, confined_append]
      exact ⟨constraint named.2.1 _, default named.2.2 _⟩
  | parameters _ inner =>
      simp only [tokenNames_append, tokenNames_cons] at named
      have each := Phrase.namesOfAll_map.mp (inner named.2.1)
      intro bound
      rw [referencesOfParameters_eq_flatMap]
      exact confined_flatMap fun parameter listed => each parameter listed bound
  | parameter _ _ _ _ inner =>
      simp only [tokenNames_append, tokenNames_cons] at named
      exact inner named.2.2.2
  | predicate _ _ _ inner =>
      simp only [tokenNames_append, tokenNames_cons] at named
      exact inner named.2.2.2
  | assertion =>
      exact TypeExpr.names_reference (List.forall_mem_singleton.mpr void) (List.forall_mem_nil _)
  | anyResult =>
      exact TypeExpr.names_reference (List.forall_mem_singleton.mpr any) (List.forall_mem_nil _)
  | element _ _ inner =>
      exact inner (tokenNames_append.mp named).1
  | spread _ _ inner =>
      rw [tokenNames_cons, tokenNames_append] at named
      exact inner named.2.1
  | members _ _ _ first others =>
      simp only [tokenNames_append] at named
      intro bound
      rw [referencesOfMembers, confined_append]
      exact ⟨first named.1 _, others named.2.2 _⟩
  | member _ _ _ inner =>
      simp only [tokenNames_append] at named
      exact inner named.2.2
  | property _ _ _ inner =>
      simp only [tokenNames_append, tokenNames_cons] at named
      exact inner named.2.2.2
  | method _ _ _ _ _ generics parameters result =>
      simp only [tokenNames_append, tokenNames_cons] at named
      obtain ⟨_, _, typed, valued, resulting⟩ := named
      intro bound
      rw [Member.referencesWithin, TypeExpr.referencesWithin]
      simp only [confined_append]
      exact ⟨⟨generics typed _, parameters valued _⟩, result resulting _⟩
  | index _ _ _ key value =>
      simp only [tokenNames_append, tokenNames_cons] at named
      obtain ⟨_, _, _, keyed, _, _, valued⟩ := named
      intro bound
      rw [Member.referencesWithin, confined_append]
      exact ⟨key keyed _, value valued _⟩
  | mapped _ _ _ _ _ _ source rename value =>
      simp only [tokenNames_append, tokenNames_cons] at named
      obtain ⟨_, _, _, sourced, renamed, _, _, _, _, valued⟩ := named
      intro bound
      rw [Member.referencesWithin]
      simp only [confined_append]
      exact ⟨⟨source sourced _, rename renamed _⟩, value valued _⟩

/-! ## Texts -/

theorem Scan.isName_of_next?
    {text : List Char} {scan : Scan} {name : String}
    (scanned : next? text = some scan)
    (named : scan.token = .name name) :
    isName name := by
  have declared := declared_of_next? scanned
  rw [named] at declared
  generalize scan.spelling = spelling at declared
  cases declared with
  | name member =>
      obtain ⟨c, rest, rfl, start, parts⟩ := Lexicon.mem_name.mp member
      rw [isName, String.toList_ofList]
      exact Bool.and_eq_true_iff.mpr ⟨start, parts⟩

/-- The names among the tokens of a text are spelled as names. -/
theorem Cut.tokenNames
    {text rest : List Char} {tokens : List Token} (cut : Cut text tokens rest) :
    TokenNames (Scan.isName ·) tokens := by
  induction cut with
  | done =>
      exact List.forall_mem_nil _
  | skip _ _ inner =>
      exact inner
  | token scanned _ inner =>
      exact tokenNames_cons.mpr ⟨fun text same => Scan.isName_of_next? scanned same, inner⟩

theorem TypeExpr.names_of_parse
    {text : String} {type : TypeExpr} (parsed : parse text = .ok type) :
    type.Names (Scan.isName ·) := by
  obtain ⟨lexemes, ran, spelled⟩ := exists_lexemes_of_parse parsed
  have derives := TypeReader.derives_of_ofLexemes spelled
  exact derives.names (by decide) (by decide) (Cut.of_allFrom ran).tokenNames

end TypeGraph
