import Mathlib.Data.List.Sort
import TypeGraph.Proofs.Compiler.Plans
import TypeGraph.Proofs.Text.Bytes
import TypeGraph.Proofs.TypeExpr.Outline

/-!
# Imported names

A file imports the types that every file needs and then, in the order of their bytes, the names that
the type texts of its nodes ask for. Neither the order of the nodes nor the texts of string literals
have an effect on them.
-/

namespace TypeGraph

namespace Imports

variable {exported : NameSet} {imports : Imports} {name : String}

/-- Whether a reference asks for a name: for the first of several names, or for a single one that is
exported at top level. -/
def Asks (exported : NameSet) (path : List String) (name : String) : Prop :=
  (path = [name] ∧ exported.contains name) ∨ ∃ second rest, path = name :: second :: rest

theorem mem_names :
    name ∈ imports.names.names ↔
      name ∈ imports.operations.names ∨ name ∈ imports.namespaces.names :=
  NameSet.mem_insertAll

theorem mem_names_merge {other : Imports} :
    name ∈ (imports.merge other).names.names ↔
      name ∈ imports.names.names ∨ name ∈ other.names.names := by
  simp only [mem_names, merge, NameSet.union, NameSet.mem_insertAll]
  tauto

theorem mem_names_addReference {path : List String} :
    name ∈ (addReference exported imports path).names.names ↔
      Asks exported path name ∨ name ∈ imports.names.names := by
  rcases path with _ | ⟨first, _ | ⟨second, rest⟩⟩
  · simp [addReference, Asks]
  · rw [addReference]
    by_cases known : exported.contains first
    · rw [if_pos known, mem_names, mem_names, NameSet.mem_insert, Asks]
      constructor
      · rintro ((rfl | operation) | namespaces)
        · exact Or.inl (Or.inl ⟨rfl, known⟩)
        · exact Or.inr (Or.inl operation)
        · exact Or.inr (Or.inr namespaces)
      · rintro ((⟨single, _⟩ | ⟨second, rest, longer⟩) | operation | namespaces)
        · exact Or.inl (Or.inl (List.cons.inj single).1.symm)
        · cases longer
        · exact Or.inl (Or.inr operation)
        · exact Or.inr namespaces
    · rw [if_neg known]
      refine (or_iff_right ?_).symm
      rintro (⟨single, exports⟩ | ⟨second, rest, longer⟩)
      · cases single
        exact known exports
      · cases longer
  · rw [addReference, mem_names, mem_names, NameSet.mem_insert, Asks]
    constructor
    · rintro (operation | rfl | namespaces)
      · exact Or.inr (Or.inl operation)
      · exact Or.inl (Or.inr ⟨second, rest, rfl⟩)
      · exact Or.inr (Or.inr namespaces)
    · rintro ((⟨single, _⟩ | ⟨_, _, longer⟩) | operation | namespaces)
      · cases single
      · exact Or.inr (Or.inl (List.cons.inj longer).1.symm)
      · exact Or.inl operation
      · exact Or.inr (Or.inr namespaces)
    · rintro ⟨⟩

theorem mem_names_foldl_addReference {paths : List (List String)} :
    name ∈ (paths.foldl (addReference exported) imports).names.names ↔
      (∃ path ∈ paths, Asks exported path name) ∨ name ∈ imports.names.names := by
  induction paths generalizing imports with
  | nil =>
      simp
  | cons path rest inner =>
      rw [List.foldl_cons, inner, mem_names_addReference, List.exists_mem_cons_iff, or_assoc]
      exact or_left_comm

theorem mem_names_ofTypeText {text : String} :
    name ∈ (ofTypeText exported text).names.names ↔
      ∃ type, TypeExpr.parse text = .ok type ∧
        ∃ path ∈ type.references, Asks exported path name := by
  rw [ofTypeText]
  cases TypeExpr.parse text with
  | error error =>
      simp [empty, names, NameSet.union, NameSet.insertAll, NameSet.empty]
  | ok type =>
      rw [mem_names_foldl_addReference]
      simp [empty, names, NameSet.union, NameSet.insertAll, NameSet.empty]

theorem mem_names_ofTypeTexts {texts : List String} :
    name ∈ (ofTypeTexts exported texts).names.names ↔
      ∃ text ∈ texts, name ∈ (ofTypeText exported text).names.names := by
  have general : ∀ imports : Imports,
      name ∈ (texts.foldl (fun imports text => imports.merge (ofTypeText exported text))
        imports).names.names ↔
        name ∈ imports.names.names ∨
          ∃ text ∈ texts, name ∈ (ofTypeText exported text).names.names := by
    induction texts with
    | nil =>
        simp
    | cons text rest inner =>
        intro imports
        rw [List.foldl_cons, inner, mem_names_merge, List.exists_mem_cons_iff, or_assoc]
  rw [ofTypeTexts, general]
  simp [empty, names, NameSet.union, NameSet.insertAll, NameSet.empty]

end Imports

theorem NameSet.ext
    {left right : NameSet} (same : ∀ name, name ∈ left.names ↔ name ∈ right.names) :
    left = right := by
  have irreflexive : Std.Irrefl fun first second : String => first < second :=
    ⟨fun name => String.lt_irrefl name⟩
  have names : left.names = right.names :=
    left.increasing.eq_of_mem_iff right.increasing same
  cases left
  cases right
  cases names
  rfl

namespace Compiler

variable {compiler : Compiler} {graph : Graph} {wish : String}

/-- Whether the type text of an operation asks for a name. -/
def Needs (compiler : Compiler) (operation name : String) : Prop :=
  ∃ type, TypeExpr.parse (compiler.typeText operation) = .ok type ∧
    (([name] ∈ type.references ∧ compiler.registry.isExported name) ∨
      ∃ second rest, name :: second :: rest ∈ type.references)

/-- Whether a list of names is what a file for the nodes has to import. -/
structure Requires (compiler : Compiler) (nodes : List Node) (imports : List String) : Prop where
  nodup : imports.Nodup
  exact : ∃ discovered,
    imports = compiler.options.importedTypes.eraseDups ++ discovered ∧
      discovered.Pairwise (fun left right => Text.bytes left < Text.bytes right) ∧
      ∀ name, name ∈ discovered ↔
        name ∉ compiler.options.importedTypes ∧
          ∃ node ∈ nodes, compiler.Needs node.operation name

def needed (compiler : Compiler) (nodes : List Node) : NameSet :=
  (Imports.ofTypeTexts compiler.registry.exported
    (nodes.map fun node => compiler.typeText node.operation)).names

theorem mem_needed {nodes : List Node} {name : String} :
    name ∈ (compiler.needed nodes).names ↔ ∃ node ∈ nodes, compiler.Needs node.operation name := by
  rw [needed, Imports.mem_names_ofTypeTexts]
  simp only [List.mem_map, exists_exists_and_eq_and, Imports.mem_names_ofTypeText, Needs]
  refine exists_congr fun node => and_congr_right fun _ => ?_
  refine exists_congr fun type => and_congr_right fun _ => ?_
  constructor
  · rintro ⟨path, member, ⟨rfl, exports⟩ | ⟨second, rest, rfl⟩⟩
    · exact Or.inl ⟨member, exports⟩
    · exact Or.inr ⟨second, rest, member⟩
  · rintro (⟨member, exports⟩ | ⟨second, rest, member⟩)
    · exact ⟨_, member, Or.inl ⟨rfl, exports⟩⟩
    · exact ⟨_, member, Or.inr ⟨second, rest, rfl⟩⟩

theorem mem_imports {nodes : List Node} {name : String} :
    name ∈ compiler.imports nodes ↔
      name ∈ compiler.options.importedTypes ∨
        ∃ node ∈ nodes, compiler.Needs node.operation name := by
  rw [imports, List.mem_eraseDups, List.mem_append, ← needed, mem_needed]

theorem mem_removeAll {name : String} {names others : List String} :
    name ∈ names.removeAll others ↔ name ∈ names ∧ name ∉ others := by
  simp [List.removeAll]

theorem imports_eq (compiler : Compiler) (nodes : List Node) :
    compiler.imports nodes =
      compiler.options.importedTypes.eraseDups ++
        (compiler.needed nodes).names.removeAll compiler.options.importedTypes := by
  have nodup : ((compiler.needed nodes).names.removeAll compiler.options.importedTypes).Nodup :=
    ((compiler.needed nodes).increasing.imp fun less => String.ne_of_lt less).filter _
  rw [imports, ← needed, List.eraseDups_append, eraseDups_of_nodup nodup]

theorem requires_imports (compiler : Compiler) (nodes : List Node) :
    compiler.Requires nodes (compiler.imports nodes) where
  nodup := nodup_eraseDups _
  exact := by
    refine ⟨_, imports_eq compiler nodes, ?_, ?_⟩
    · exact ((compiler.needed nodes).increasing.filter _).imp Text.bytes_lt_bytes
    · intro name
      rw [mem_removeAll, mem_needed, and_comm]

/-! ## What the imports depend on -/

def outlines (compiler : Compiler) (nodes : List Node) : List (Option (List Token)) :=
  nodes.map fun node => TypeExpr.outline? (compiler.typeText node.operation)

theorem needs_of_outline
    {other : Compiler} {operation otherOperation name : String}
    (exports : other.registry.exported = compiler.registry.exported)
    (same : TypeExpr.outline? (other.typeText otherOperation) =
      TypeExpr.outline? (compiler.typeText operation))
    (needs : compiler.Needs operation name) :
    other.Needs otherOperation name := by
  obtain ⟨type, spelled, asks⟩ := needs
  obtain ⟨otherType, otherSpelled, references⟩ :=
    TypeExpr.exists_parse_of_outline same.symm spelled
  refine ⟨otherType, otherSpelled, ?_⟩
  rw [references, Registry.isExported, exports]
  exact asks

theorem needed_subset_of_outlines
    {other : Compiler} {nodes otherNodes : List Node}
    (exports : other.registry.exported = compiler.registry.exported)
    (subset : ∀ outline ∈ compiler.outlines nodes, outline ∈ other.outlines otherNodes)
    {name : String}
    (member : name ∈ (compiler.needed nodes).names) :
    name ∈ (other.needed otherNodes).names := by
  rw [mem_needed] at member ⊢
  obtain ⟨node, nodeMember, needs⟩ := member
  obtain ⟨otherNode, otherMember, same⟩ :=
    List.mem_map.mp (subset _ (List.mem_map_of_mem nodeMember))
  exact ⟨otherNode, otherMember, needs_of_outline exports same needs⟩

theorem imports_eq_of_outlines
    {other : Compiler} {nodes otherNodes : List Node}
    (types : other.options.importedTypes = compiler.options.importedTypes)
    (exports : other.registry.exported = compiler.registry.exported)
    (same : ∀ outline, outline ∈ other.outlines otherNodes ↔ outline ∈ compiler.outlines nodes) :
    other.imports otherNodes = compiler.imports nodes := by
  have found : other.needed otherNodes = compiler.needed nodes := by
    apply NameSet.ext
    intro name
    constructor
    · exact needed_subset_of_outlines exports.symm fun outline => (same outline).mp
    · exact needed_subset_of_outlines exports fun outline => (same outline).mpr
  rw [imports_eq, imports_eq, types, found]

/-- A compilation imports exactly what the type texts of its nodes ask for. Only the outlines of
these texts matter, and neither their order nor their number. -/
theorem compile_imports_exact
    (compiler : Compiler) (graph : Graph) (wish : String)
    (occupied : graph.nodes ≠ []) :
    compiler.Requires graph.nodes (compiler.compile graph wish).imports ∧
      (∀ (drawing : Graph) (otherWish : String),
        (∀ node, node ∈ drawing.nodes ↔ node ∈ graph.nodes) →
        (compiler.compile drawing otherWish).imports = (compiler.compile graph wish).imports) ∧
      ∀ (other : Compiler) (drawing : Graph) (otherWish : String),
        drawing.nodes ≠ [] →
        other.options.importedTypes = compiler.options.importedTypes →
        other.registry.exported = compiler.registry.exported →
        (∀ outline,
          outline ∈ other.outlines drawing.nodes ↔ outline ∈ compiler.outlines graph.nodes) →
        (other.compile drawing otherWish).imports = (compiler.compile graph wish).imports := by
  rw [(compile_of_occupied occupied).1]
  refine ⟨requires_imports compiler graph.nodes, ?_, ?_⟩
  · intro drawing otherWish same
    have drawn : drawing.nodes ≠ [] := by
      obtain ⟨node, member⟩ := List.exists_mem_of_ne_nil _ occupied
      exact List.ne_nil_of_mem ((same node).mpr member)
    rw [(compile_of_occupied drawn).1]
    refine imports_eq_of_outlines rfl rfl fun outline => ?_
    simp only [outlines, List.mem_map, same]
  · intro other drawing otherWish drawn types exports same
    rw [(compile_of_occupied drawn).1]
    exact imports_eq_of_outlines types exports same

/-- A name in a string literal, and one that every file imports. -/
def quoted : Graph where
  nodes := [.ofOperation "a" "Strings.Trim", .ofOperation "b" "Pick<T, 'Lists.Map'>",
    .ofOperation "c" "DAG"]
  edges := []

theorem compile_imports_exact_quoted :
    quoted.nodes ≠ [] ∧
      standard.Requires quoted.nodes (standard.compile quoted "").imports ∧
      (∀ (drawing : Graph) (otherWish : String),
        (∀ node, node ∈ drawing.nodes ↔ node ∈ quoted.nodes) →
        (standard.compile drawing otherWish).imports = (standard.compile quoted "").imports) ∧
      ∀ (other : Compiler) (drawing : Graph) (otherWish : String),
        drawing.nodes ≠ [] →
        other.options.importedTypes = standard.options.importedTypes →
        other.registry.exported = standard.registry.exported →
        (∀ outline,
          outline ∈ other.outlines drawing.nodes ↔ outline ∈ standard.outlines quoted.nodes) →
        (other.compile drawing otherWish).imports = (standard.compile quoted "").imports :=
  ⟨List.cons_ne_nil _ _, compile_imports_exact standard quoted "" (List.cons_ne_nil _ _)⟩

end Compiler

end TypeGraph
