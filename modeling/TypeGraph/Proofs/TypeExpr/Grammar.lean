import TypeGraph.TypeExpr.Basic
import TypeGraph.TypeExpr.Token

/-!
# The grammar of type expressions

Which tokens derive which trees, whatever reads them. A phrase is a nonterminal together with the
tree that its tokens stand for, and a production is a rule for deriving one:

```text
type           := union ('extends' union '?' type ':' type)?
union          := '|'? intersection ('|' intersection)*
intersection   := '&'? operand ('&' operand)*
operand        := primary ('[' type? ']')*
primary        := reference | string | '-'? number | tuple | object | function
                | '(' type ')' | 'infer' name
                | ('keyof' | 'typeof' | 'readonly' | 'unique') operand
reference      := name ('.' name)* ('<' type (',' type)* ','? '>')?
function       := 'new'? typeParameters? parameters '=>' result
typeParameters := '<' name ('extends' type)? ('=' type)? (',' ...)* ','? '>' | '<' '>'
parameters     := '(' ('...'? name '?'? (':' type)? (',' ...)* ','?)? ')'
result         := ('asserts'? name 'is')? type | 'asserts' name
tuple          := '[' (element (',' element)* ','?)? ']'
element        := '...'? type '?'?
object         := '{' (member (';' | ',')?)* '}'
member         := ('+' | '-')? 'readonly'? (property | index | mapped)
property       := (name | string | number) '?'? (':' type | typeParameters? parameters (':' result)?)
index          := '[' name ':' type ']' ':' type
mapped         := '[' name 'in' type ('as' type)? ']' ('+' | '-')? '?'? ':' type
```

The grammar is ambiguous: a word that begins an operation or a predicate is a name as well.
-/

namespace TypeGraph

/-- The symbols that stand between the items of a list. -/
inductive Separator where
  | dot
  | comma
  | pipe
  | ampersand

namespace Separator

def symbol : Separator → Symbol
  | dot => .dot
  | comma => .comma
  | pipe => .pipe
  | ampersand => .ampersand

end Separator

/-- A nonterminal and the tree of its tokens. -/
inductive Phrase where
  | type (tree : TypeExpr)
  | union (tree : TypeExpr)
  | intersection (tree : TypeExpr)
  | operand (tree : TypeExpr)
  | primary (tree : TypeExpr)
  | reference (tree : TypeExpr)
  | function (tree : TypeExpr)
  | result (tree : TypeExpr)
  | element (tree : TypeExpr)
  | name (text : String)
  | typeParameter (tree : TypeParameter)
  | typeParameters (trees : List TypeParameter)
  /-- Type parameters that may be left out. -/
  | generics (trees : List TypeParameter)
  | parameter (tree : Parameter)
  | parameters (trees : List Parameter)
  /-- A member without its modifiers. -/
  | plainMember (tree : Member)
  | member (tree : Member)
  | members (trees : List Member)
  /-- What a method gives, behind a colon if it is not left out. -/
  | methodResult (tree : TypeExpr)
  /-- A type behind a token, both of which may be left out. -/
  | clause (lead : Token) (tree : Option TypeExpr)
  /-- One item or more with a separator between every two. -/
  | separated (separator : Separator) (items : List Phrase)
  /-- Items with commas between them, and perhaps a comma behind the last. -/
  | listed (items : List Phrase)

/-- At most one token, out of some choices. -/
inductive Optionally (choices : List Token) : List Token → Prop where
  | absent : Optionally choices []
  | present {token : Token} : token ∈ choices → Optionally choices [token]

/-- A token that may be the key of a property. -/
inductive Token.IsKey : Token → String → Prop where
  | name (text : String) : IsKey (.name text) text
  | string (text : String) : IsKey (.string text) text
  | number (numeral : String) : IsKey (.number numeral) numeral

/-- The productions of the grammar. -/
inductive Derives : List Token → Phrase → Prop where
  | single {separator : Separator} {item : Phrase} {tokens : List Token} :
      Derives tokens item → Derives tokens (.separated separator [item])
  | more {separator : Separator} {item : Phrase} {items : List Phrase}
      {tokens others : List Token} :
      Derives tokens item → Derives others (.separated separator items) →
      Derives (tokens ++ .symbol separator.symbol :: others)
        (.separated separator (item :: items))
  | nothing : Derives [] (.listed [])
  | listed {items : List Phrase} {tokens final : List Token} :
      Derives tokens (.separated .comma items) → Optionally [.symbol .comma] final →
      Derives (tokens ++ final) (.listed items)
  | noClause (lead : Token) : Derives [] (.clause lead none)
  | clause {lead : Token} {tree : TypeExpr} {tokens : List Token} :
      Derives tokens (.type tree) → Derives (lead :: tokens) (.clause lead (some tree))
  | unconditional {tree : TypeExpr} {tokens : List Token} :
      Derives tokens (.union tree) → Derives tokens (.type tree)
  | conditional {checkTree boundTree trueTree falseTree : TypeExpr}
      {check bound whenTrue whenFalse : List Token} :
      Derives check (.union checkTree) → Derives bound (.union boundTree) →
      Derives whenTrue (.type trueTree) → Derives whenFalse (.type falseTree) →
      Derives
        (check ++ .name "extends" ::
          (bound ++ .symbol .question :: (whenTrue ++ .symbol .colon :: whenFalse)))
        (.type (.conditional checkTree boundTree trueTree falseTree))
  | union {parts : List TypeExpr} {lead tokens : List Token} :
      Optionally [.symbol .pipe] lead →
      Derives tokens (.separated .pipe (parts.map .intersection)) →
      Derives (lead ++ tokens) (.union (.joined .union parts))
  | intersection {parts : List TypeExpr} {lead tokens : List Token} :
      Optionally [.symbol .ampersand] lead →
      Derives tokens (.separated .ampersand (parts.map .operand)) →
      Derives (lead ++ tokens) (.intersection (.joined .intersection parts))
  | primary {tree : TypeExpr} {tokens : List Token} :
      Derives tokens (.primary tree) → Derives tokens (.operand tree)
  | array {tree : TypeExpr} {tokens : List Token} :
      Derives tokens (.operand tree) →
      Derives (tokens ++ [.symbol .openBracket, .symbol .closeBracket]) (.operand (.array tree))
  | indexed {tree index : TypeExpr} {tokens inside : List Token} :
      Derives tokens (.operand tree) → Derives inside (.type index) →
      Derives (tokens ++ .symbol .openBracket :: (inside ++ [.symbol .closeBracket]))
        (.operand (.indexed tree index))
  | name (text : String) : Derives [.name text] (.name text)
  | path {path : List String} {tokens : List Token} :
      Derives tokens (.separated .dot (path.map .name)) →
      Derives tokens (.reference (.reference path []))
  | application {path : List String} {first : TypeExpr} {others : List TypeExpr}
      {tokens arguments : List Token} :
      Derives tokens (.separated .dot (path.map .name)) →
      Derives arguments (.listed ((first :: others).map .type)) →
      Derives (tokens ++ .symbol .less :: (arguments ++ [.symbol .greater]))
        (.reference (.reference path (first :: others)))
  | reference {tree : TypeExpr} {tokens : List Token} :
      Derives tokens (.reference tree) → Derives tokens (.primary tree)
  | string (text : String) : Derives [.string text] (.primary (.string text))
  | number (numeral : String) : Derives [.number numeral] (.primary (.number numeral))
  | negative (numeral : String) :
      Derives [.symbol .minus, .number numeral] (.primary (.number ("-" ++ numeral)))
  | tuple {elements : List TypeExpr} {tokens : List Token} :
      Derives tokens (.listed (elements.map .element)) →
      Derives (.symbol .openBracket :: (tokens ++ [.symbol .closeBracket]))
        (.primary (.tuple elements))
  | object {trees : List Member} {tokens : List Token} :
      Derives tokens (.members trees) →
      Derives (.symbol .openBrace :: (tokens ++ [.symbol .closeBrace])) (.primary (.object trees))
  | callable {tree : TypeExpr} {tokens : List Token} :
      Derives tokens (.function tree) → Derives tokens (.primary tree)
  | parenthesized {tree : TypeExpr} {tokens : List Token} :
      Derives tokens (.type tree) →
      Derives (.symbol .openParen :: (tokens ++ [.symbol .closeParen])) (.primary tree)
  | infer (text : String) : Derives [.name "infer", .name text] (.primary (.infer text))
  | operation {tree : TypeExpr} {tokens : List Token} (operator : TypeOperator) :
      Derives tokens (.operand tree) →
      Derives (.name operator.word :: tokens) (.primary (.operation operator tree))
  | function {types : List TypeParameter} {values : List Parameter} {tree : TypeExpr}
      {lead generics parameters result : List Token} :
      Optionally [.name "new"] lead → Derives generics (.generics types) →
      Derives parameters (.parameters values) → Derives result (.result tree) →
      Derives (lead ++ (generics ++ (parameters ++ .symbol .arrow :: result)))
        (.function (.function types values tree))
  | noTypeParameters : Derives [.symbol .less, .symbol .greater] (.typeParameters [])
  | typeParameters {trees : List TypeParameter} {tokens final : List Token} :
      Derives tokens (.separated .comma (trees.map .typeParameter)) →
      Optionally [.symbol .comma] final →
      Derives (.symbol .less :: (tokens ++ final ++ [.symbol .greater])) (.typeParameters trees)
  | typeParameter {constraintTree defaultTree : Option TypeExpr} {constraint default : List Token}
      (text : String) :
      Derives constraint (.clause (.name "extends") constraintTree) →
      Derives default (.clause (.symbol .equals) defaultTree) →
      Derives (.name text :: (constraint ++ default))
        (.typeParameter (.mk text constraintTree defaultTree))
  | noGenerics : Derives [] (.generics [])
  | generics {trees : List TypeParameter} {tokens : List Token} :
      Derives tokens (.typeParameters trees) → Derives tokens (.generics trees)
  | parameters {trees : List Parameter} {tokens : List Token} :
      Derives tokens (.listed (trees.map .parameter)) →
      Derives (.symbol .openParen :: (tokens ++ [.symbol .closeParen])) (.parameters trees)
  | parameter {tree : Option TypeExpr} {dots mark tokens : List Token} (text : String) :
      Optionally [.symbol .ellipsis] dots → Optionally [.symbol .question] mark →
      Derives tokens (.clause (.symbol .colon) tree) →
      Derives (dots ++ .name text :: (mark ++ tokens)) (.parameter (.mk text tree))
  | result {tree : TypeExpr} {tokens : List Token} :
      Derives tokens (.type tree) → Derives tokens (.result tree)
  | predicate {tree : TypeExpr} {lead tokens : List Token} (text : String) :
      Optionally [.name "asserts"] lead → Derives tokens (.type tree) →
      Derives (lead ++ .name text :: .name "is" :: tokens) (.result tree)
  | assertion (text : String) :
      Derives [.name "asserts", .name text] (.result (.named "void"))
  | element {tree : TypeExpr} {tokens mark : List Token} :
      Derives tokens (.type tree) → Optionally [.symbol .question] mark →
      Derives (tokens ++ mark) (.element tree)
  | spread {tree : TypeExpr} {tokens mark : List Token} :
      Derives tokens (.type tree) → Optionally [.symbol .question] mark →
      Derives (.symbol .ellipsis :: (tokens ++ mark)) (.element (.rest tree))
  | noMembers : Derives [] (.members [])
  | members {tree : Member} {trees : List Member} {tokens separator others : List Token} :
      Derives tokens (.member tree) →
      Optionally [.symbol .semicolon, .symbol .comma] separator →
      Derives others (.members trees) →
      Derives (tokens ++ (separator ++ others)) (.members (tree :: trees))
  | member {tree : Member} {sign modifier tokens : List Token} :
      Optionally [.symbol .plus, .symbol .minus] sign →
      Optionally [.name "readonly"] modifier →
      Derives tokens (.plainMember tree) →
      Derives (sign ++ (modifier ++ tokens)) (.member tree)
  | property {key : Token} {text : String} {tree : TypeExpr} {mark tokens : List Token} :
      key.IsKey text → Optionally [.symbol .question] mark → Derives tokens (.type tree) →
      Derives (key :: (mark ++ .symbol .colon :: tokens)) (.plainMember (.property text tree))
  | method {key : Token} {text : String} {types : List TypeParameter} {values : List Parameter}
      {tree : TypeExpr} {mark generics parameters result : List Token} :
      key.IsKey text → Optionally [.symbol .question] mark →
      Derives generics (.generics types) → Derives parameters (.parameters values) →
      Derives result (.methodResult tree) →
      Derives (key :: (mark ++ (generics ++ (parameters ++ result))))
        (.plainMember (.property text (.function types values tree)))
  | index {keyTree tree : TypeExpr} {key tokens : List Token} (text : String) :
      Derives key (.type keyTree) → Derives tokens (.type tree) →
      Derives
        (.symbol .openBracket :: .name text :: .symbol .colon ::
          (key ++ .symbol .closeBracket :: .symbol .colon :: tokens))
        (.plainMember (.index text keyTree tree))
  | mapped {sourceTree tree : TypeExpr} {renameTree : Option TypeExpr}
      {source rename sign mark tokens : List Token} (text : String) :
      Derives source (.type sourceTree) → Derives rename (.clause (.name "as") renameTree) →
      Optionally [.symbol .plus, .symbol .minus] sign →
      Optionally [.symbol .question] mark →
      Derives tokens (.type tree) →
      Derives
        (.symbol .openBracket :: .name text :: .name "in" ::
          (source ++ (rename ++ .symbol .closeBracket ::
            (sign ++ (mark ++ .symbol .colon :: tokens)))))
        (.plainMember (.mapped text sourceTree renameTree tree))
  | anyResult : Derives [] (.methodResult (.named "any"))
  | methodResult {tree : TypeExpr} {tokens : List Token} :
      Derives tokens (.result tree) → Derives (.symbol .colon :: tokens) (.methodResult tree)

/-! ## The last token -/

/-- Phrases that may have no tokens. -/
inductive Phrase.Hollow : Phrase → Prop where
  | generics (trees : List TypeParameter) : Hollow (.generics trees)
  | members (trees : List Member) : Hollow (.members trees)
  | methodResult (tree : TypeExpr) : Hollow (.methodResult tree)
  | clause (lead : Token) (tree : Option TypeExpr) : Hollow (.clause lead tree)
  | listed (items : List Phrase) : Hollow (.listed items)
  | separated {item : Phrase} (separator : Separator) :
      Hollow item → Hollow (.separated separator [item])

theorem Phrase.not_hollow_separated
    {α : Type} {phrase : α → Phrase} (solid : ∀ value, ¬ Hollow (phrase value))
    (separator : Separator) (values : List α) :
    ¬ Hollow (.separated separator (values.map phrase)) := by
  intro hollow
  rcases values with _ | ⟨first, _ | ⟨second, others⟩⟩
  · cases hollow
  · cases hollow with
    | separated _ inner => exact solid first inner
  · cases hollow

theorem Derives.hollow_of_nil
    {tokens : List Token} {phrase : Phrase} (derives : Derives tokens phrase)
    (empty : tokens = []) :
    phrase.Hollow := by
  induction derives with
  | single _ inner =>
      exact .separated _ (inner empty)
  | nothing | noClause | noGenerics | noMembers | anyResult => constructor
  | listed | generics | members => constructor
  | union _ _ inner =>
      exact absurd (inner (List.append_eq_nil_iff.mp empty).2)
        (Phrase.not_hollow_separated nofun _ _)
  | intersection _ _ inner =>
      exact absurd (inner (List.append_eq_nil_iff.mp empty).2)
        (Phrase.not_hollow_separated nofun _ _)
  | path _ inner =>
      exact absurd (inner empty) (Phrase.not_hollow_separated nofun _ _)
  | unconditional _ inner | primary _ inner | reference _ inner | callable _ inner
  | result _ inner =>
      cases inner empty
  | element _ _ inner =>
      cases inner (List.append_eq_nil_iff.mp empty).1
  | member _ _ _ inner =>
      cases inner (List.append_eq_nil_iff.mp (List.append_eq_nil_iff.mp empty).2).2
  | _ =>
      simp only [List.append_eq_nil_iff, List.cons_ne_nil, and_false] at empty

/-- Whether tokens do not end in an equals sign. -/
def EndsPlain (tokens : List Token) : Prop :=
  tokens.getLast? ≠ some (.symbol .equals)

theorem endsPlain_nil : EndsPlain [] :=
  nofun

theorem EndsPlain.append
    {first second : List Token} (left : EndsPlain first) (right : EndsPlain second) :
    EndsPlain (first ++ second) := by
  rw [EndsPlain, List.getLast?_append]
  cases last : second.getLast? with
  | none =>
      exact left
  | some token =>
      rw [EndsPlain, last] at right
      exact right

theorem EndsPlain.cons
    {head : Token} {tail : List Token}
    (different : head ≠ .symbol .equals) (rest : EndsPlain tail) :
    EndsPlain (head :: tail) := by
  have alone : EndsPlain [head] := by
    intro same
    exact different (Option.some.inj same)
  exact alone.append rest

theorem EndsPlain.cons_of_ne_nil
    {tail : List Token} (nonempty : tail ≠ []) (rest : EndsPlain tail) (head : Token) :
    EndsPlain (head :: tail) := by
  rw [EndsPlain, List.getLast?_cons_of_ne_nil nonempty]
  exact rest

theorem Optionally.endsPlain
    {choices tokens : List Token} (optionally : Optionally choices tokens)
    (off : Token.symbol .equals ∉ choices) :
    EndsPlain tokens := by
  cases optionally with
  | absent =>
      exact endsPlain_nil
  | present member =>
      refine endsPlain_nil.cons ?_
      intro same
      exact off (same ▸ member)

theorem Separator.symbol_ne_equals (separator : Separator) :
    Token.symbol separator.symbol ≠ .symbol .equals := by
  cases separator <;> exact nofun

theorem Token.IsKey.ne_symbol
    {key : Token} {text : String} (isKey : key.IsKey text) {kind : Symbol} :
    key ≠ .symbol kind := by
  cases isKey <;> exact nofun

theorem Derives.endsPlain
    {tokens : List Token} {phrase : Phrase} (derives : Derives tokens phrase) :
    EndsPlain tokens := by
  induction derives with
  | clause derives inner =>
      refine inner.cons_of_ne_nil ?_ _
      intro empty
      cases derives.hollow_of_nil empty
  | @more separator _ _ _ _ _ _ first others =>
      exact first.append (.cons separator.symbol_ne_equals others)
  | property isKey marks _ value =>
      have behind : EndsPlain (.symbol .colon :: _) := .cons nofun value
      exact .cons isKey.ne_symbol ((marks.endsPlain (by decide)).append behind)
  | method isKey marks _ _ _ generics parameters result =>
      have behind := generics.append (parameters.append result)
      exact .cons isKey.ne_symbol ((marks.endsPlain (by decide)).append behind)
  | _ =>
      repeat' first
        | assumption
        | exact endsPlain_nil
        | exact Optionally.endsPlain ‹_› (by decide)
        | apply EndsPlain.append
        | apply EndsPlain.cons
        | exact nofun
end TypeGraph
