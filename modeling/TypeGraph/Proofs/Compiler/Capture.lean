import TypeGraph.Proofs.Compiler.Hygiene
import TypeGraph.Proofs.Compiler.Imports

/-!
# Names that type texts refer to

A type text may refer to a single name that it does not bind. Such a name keeps its meaning if it is
reserved or exported at top level, or if the file imports it or calls a component by it: then no node
and not the whole result is called so. Any other name is free to be given, even though a type text
refers to it, and it is given where an id is made into it.
-/

namespace TypeGraph

namespace Compiler

variable {compiler : Compiler} {graph : Graph} {wish name : String}

/-- A name that is not taken in the beginning is given where an id is made into it. -/
theorem gives_of_sanitize
    (occupied : graph.nodes ≠ [])
    (free : name ∉ (compiler.compile graph wish).occupiedNames)
    (made : (∃ node ∈ graph.nodes, Text.sanitize node.id = name) ∨
      Text.sanitize (resultText compiler.options wish) = name) :
    (compiler.compile graph wish).Gives name := by
  rw [gives_iff occupied]
  rw [occupiedNames_compile occupied] at free
  rcases made with ⟨node, member, rfl⟩ | rfl
  · by_cases same : Text.sanitize node.id = compiler.resultName graph wish
    · exact Or.inr same
    · have untaken : Text.sanitize node.id ∉
          compiler.resultName graph wish :: compiler.takenNames graph :=
        List.not_mem_cons_of_ne_of_not_mem same free
      obtain ⟨id, listed, named⟩ := NameTable.exists_binding_eq_sanitize
        (List.mem_map_of_mem member) untaken
      obtain ⟨other, otherMember, rfl⟩ := List.mem_map.mp listed
      refine Or.inl ⟨other, otherMember, ?_⟩
      rw [names, graphNaming_eq]
      exact named
  · exact Or.inr (NameTable.freshName_of_not_mem free).symm

/-- Whether a name that a type text refers to keeps its meaning: it is exported at top level, or taken
before anything is named. -/
def Guards (compiler : Compiler) (compilation : Compilation) (name : String) : Prop :=
  compiler.registry.isExported name ∨ name ∈ compilation.occupiedNames

theorem occupied_of_guards
    {node : Node} {type : TypeExpr}
    (member : node ∈ graph.nodes)
    (parsed : TypeExpr.parse (compiler.typeText node.operation) = .ok type)
    (free : [name] ∈ type.references)
    (guards : compiler.Guards (compiler.compile graph wish) name) :
    name ∈ (compiler.compile graph wish).occupiedNames := by
  rcases guards with exported | taken
  · have needs : compiler.Needs node.operation name := ⟨type, parsed, Or.inl ⟨free, exported⟩⟩
    have imported : name ∈ (compiler.compile graph wish).imports := by
      rw [(compile_of_occupied (List.ne_nil_of_mem member)).1, mem_imports]
      exact Or.inr ⟨node, member, needs⟩
    exact List.mem_append_right _ (List.mem_append_left _ imported)
  · exact taken

/-- A single name that a type text refers to is not given to a node or to the whole result if it is
guarded. If it is not, it is given as soon as an id, or the text that the whole result is named
after, is made into it. -/
theorem references_guarded
    (compiler : Compiler) (graph : Graph) (wish : String)
    {node : Node} {type : TypeExpr} {name : String}
    (member : node ∈ graph.nodes)
    (parsed : TypeExpr.parse (compiler.typeText node.operation) = .ok type)
    (free : [name] ∈ type.references) :
    let compilation := compiler.compile graph wish
    (compiler.Guards compilation name → ¬ compilation.Gives name) ∧
    (¬ compiler.Guards compilation name →
      ((∃ other ∈ graph.nodes, Text.sanitize other.id = name) ∨
        Text.sanitize (resultText compiler.options wish) = name) →
      compilation.Gives name) := by
  intro compilation
  have occupied : graph.nodes ≠ [] := List.ne_nil_of_mem member
  constructor
  · intro guards
    exact not_gives_of_occupied occupied (occupied_of_guards member parsed free guards)
  · intro unguarded made
    exact gives_of_sanitize occupied (fun taken => unguarded (Or.inr taken)) made

/-- A type text that refers to the ids of both nodes, of which one is exported. -/
def captured : Graph where
  nodes := [.ofOperation "Foo" "Pick<Foo>", .ofOperation "Pick" "Strings.Trim"]
  edges := []

def capturedType : TypeExpr :=
  .reference ["Pick"] [.named "Foo"]

theorem parse_captured :
    TypeExpr.parse (standard.typeText "Pick<Foo>") = .ok capturedType := by
  with_unfolding_all rfl

theorem references_guarded_captured :
    .ofOperation "Foo" "Pick<Foo>" ∈ captured.nodes ∧
      TypeExpr.parse (standard.typeText "Pick<Foo>") = .ok capturedType ∧
      ["Pick"] ∈ capturedType.references ∧
      (standard.Guards (standard.compile captured "") "Pick" →
        ¬ (standard.compile captured "").Gives "Pick") ∧
      (¬ standard.Guards (standard.compile captured "") "Pick" →
        ((∃ other ∈ captured.nodes, Text.sanitize other.id = "Pick") ∨
          Text.sanitize (resultText standard.options "") = "Pick") →
        (standard.compile captured "").Gives "Pick") := by
  have member : Node.ofOperation "Foo" "Pick<Foo>" ∈ captured.nodes := List.mem_cons_self
  have free : ["Pick"] ∈ capturedType.references := by
    decide
  exact ⟨member, parse_captured, free,
    references_guarded standard captured "" member parse_captured free⟩

/-- The other name is not exported, and the node with that id is called so. -/
theorem references_captured :
    ¬ ∀ (compiler : Compiler) (graph : Graph) (wish : String),
      compiler.options = .standard → (graph.nodes.map Node.id).Nodup →
        ∀ node ∈ graph.nodes, ∀ type,
          TypeExpr.parse (compiler.typeText node.operation) = .ok type →
            ∀ name, [name] ∈ type.references →
              ¬ (compiler.compile graph wish).Gives name := by
  intro kept
  have free : ["Foo"] ∈ capturedType.references := by
    decide
  have given : (standard.compile captured "").Gives "Foo" := by
    have occupied : captured.nodes ≠ [] := List.cons_ne_nil _ _
    refine gives_of_sanitize occupied ?_ (Or.inl ⟨_, List.mem_cons_self, rfl⟩)
    decide +kernel
  exact kept standard captured "" rfl (by decide) _ List.mem_cons_self capturedType
    parse_captured "Foo" free given

end Compiler

end TypeGraph
