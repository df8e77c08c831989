import TypeGraph.Proofs.Source.Component

/-!
# The statements of a file

A file is a sequence of statements with a few other lines between them. Each statement reads as what
its plan says.
-/

namespace TypeGraph.Source

inductive Piece where
  /-- A line that is no statement. -/
  | remark (line : String)
  | statement (content : Alias)

namespace Piece

def text : Piece → String
  | remark line => line ++ "\n"
  | statement content => content.text

def statement? : Piece → Option Alias
  | remark _ => none
  | statement content => some content

end Piece

variable {options : Options} {plans : List ComponentPlan} {name : String}

/-! ## Pieces -/

def componentPieces (options : Options) (plan : ComponentPlan) : List Piece :=
  .remark (componentComment plan) :: .statement (declaration options plan) :: .remark ""
    :: (stepsAndResult options plan).map .statement ++ [.remark ""]

def filePieces (options : Options) (imports : List String) (plans : List ComponentPlan)
    (name : String) : List Piece :=
  .remark (importStatement options imports) :: .remark ""
    :: plans.flatMap (componentPieces options) ++ [.statement (wholeResult plans name)]

theorem ofLines_append (first second : List String) :
    ofLines (first ++ second) = ofLines first ++ ofLines second := by
  rw [ofLines, List.map_append, String.join_append]
  rfl

theorem ofLines_cons (line : String) (lines : List String) :
    ofLines (line :: lines) = line ++ "\n" ++ ofLines lines := by
  rw [ofLines, List.map_cons, String.join_cons]
  rfl

theorem ofLines_endWith (ending line : String) (lines : List String) :
    ofLines (endWith ending (line :: lines)) = "\n".intercalate (line :: lines) ++ ending ++ "\n" := by
  induction lines generalizing line with
  | nil =>
      rw [endWith, ofLines_cons, String.intercalate_singleton]
      exact String.append_empty
  | cons next lines inner =>
      have step : endWith ending (line :: next :: lines) = line :: endWith ending (next :: lines) :=
        rfl
      rw [step, ofLines_cons, inner, String.intercalate_cons_cons]
      simp only [String.append_assoc]

theorem ofLines_lines {statement : Alias} (occupied : statement.body ≠ []) :
    ofLines statement.lines = statement.text := by
  obtain ⟨first, rest, body⟩ := List.exists_cons_of_ne_nil occupied
  rw [Alias.lines, Alias.text, Alias.bodyText, body, beginWith, ofLines_endWith,
    String.intercalate_cons_append]
  simp only [String.append_assoc]
  rfl

theorem ofLines_flatMap_lines {statements : List Alias}
    (occupied : ∀ statement ∈ statements, statement.body ≠ []) :
    ofLines (statements.flatMap Alias.lines) =
      String.join ((statements.map Piece.statement).map Piece.text) := by
  induction statements with
  | nil =>
      rfl
  | cons statement statements inner =>
      rw [List.forall_mem_cons] at occupied
      rw [List.flatMap_cons, ofLines_append, ofLines_lines occupied.1, inner occupied.2,
        List.map_cons, List.map_cons, String.join_cons]
      rfl

theorem body_stepsAndResult (options : Options) (plan : ComponentPlan) :
    ∀ statement ∈ stepsAndResult options plan, statement.body ≠ [] := by
  intro statement member
  rcases List.mem_append.mp member with step | last
  · obtain ⟨node, _, rfl⟩ := List.mem_map.mp step
    exact List.cons_ne_nil _ _
  · rw [List.mem_singleton.mp last]
    exact List.cons_ne_nil _ _

theorem ofLines_componentLines (options : Options) (plan : ComponentPlan) :
    ofLines (componentLines options plan ++ [""]) =
      String.join ((componentPieces options plan).map Piece.text) := by
  have declared : (declaration options plan).body ≠ [] := List.cons_ne_nil _ _
  have statements := ofLines_flatMap_lines (body_stepsAndResult options plan)
  rw [componentLines, componentPieces, ofLines_append, ofLines_append, ofLines_cons,
    ofLines_lines declared, ofLines_cons, statements]
  simp only [List.map_append, List.map_cons, String.join_append, String.join_cons, Piece.text,
    String.append_assoc]
  rfl

theorem ofLines_fileLines
    (options : Options) (imports : List String) (plans : List ComponentPlan) (name : String) :
    ofLines (fileLines options imports plans name) =
      String.join ((filePieces options imports plans name).map Piece.text) := by
  have components : ofLines (plans.flatMap fun plan => componentLines options plan ++ [""]) =
      String.join ((plans.flatMap (componentPieces options)).map Piece.text) := by
    induction plans with
    | nil =>
        rfl
    | cons plan plans inner =>
        rw [List.flatMap_cons, List.flatMap_cons, ofLines_append, inner, List.map_append,
          String.join_append, ofLines_componentLines]
  have last : (wholeResult plans name).body ≠ [] := List.cons_ne_nil _ _
  rw [fileLines, filePieces, ofLines_append, ofLines_cons, ofLines_cons, components,
    ofLines_lines last]
  simp only [List.map_append, List.map_cons, List.map_nil, String.join_append, String.join_cons,
    String.join_nil, String.append_empty, String.append_assoc, Piece.text]

theorem statements_filePieces
    (options : Options) (imports : List String) (plans : List ComponentPlan) (name : String) :
    (filePieces options imports plans name).filterMap Piece.statement? =
      fileAliases options plans name := by
  have statements : ∀ aliases : List Alias,
      (aliases.map Piece.statement).filterMap Piece.statement? = aliases := by
    intro aliases
    rw [List.filterMap_map]
    exact List.filterMap_some ..
  have component : ∀ plan, (componentPieces options plan).filterMap Piece.statement? =
      aliases options plan := by
    intro plan
    rw [componentPieces, List.filterMap_append]
    simp only [List.filterMap_cons, Piece.statement?, statements, List.filterMap_nil]
    rw [List.append_nil, aliases]
  rw [filePieces, fileAliases, List.filterMap_append, List.filterMap_cons, List.filterMap_cons]
  simp only [Piece.statement?, List.filterMap_flatMap, component, List.filterMap_cons,
    List.filterMap_nil]

theorem remark_mem_filePieces
    {imports : List String} {line : String}
    (member : .remark line ∈ filePieces options imports plans name) :
    line = importStatement options imports ∨ line = "" ∨
      ∃ plan ∈ plans, line = componentComment plan := by
  have noStatement : ∀ statements : List Alias,
      .remark line ∉ statements.map Piece.statement := by
    intro statements member
    obtain ⟨_, _, impossible⟩ := List.mem_map.mp member
    cases impossible
  simp only [filePieces, componentPieces, List.mem_append, List.mem_cons, List.mem_flatMap,
    Piece.remark.injEq, noStatement, reduceCtorEq, List.not_mem_nil, or_false, false_or] at member
  rcases member with first | blank | ⟨plan, planned, (comment | blank) | blank⟩
  · exact Or.inl first
  · exact Or.inr (Or.inl blank)
  · exact Or.inr (Or.inr ⟨plan, planned, comment⟩)
  · exact Or.inr (Or.inl blank)
  · exact Or.inr (Or.inl blank)

/-! ## Reading back -/

theorem reads_of_writes
    {statement : Alias} {expected : String × TypeExpr}
    (named : statement.name = expected.1)
    (writes : Writes statement.bodyText expected.2) :
    Reads statement expected :=
  ⟨named, parse_of_writes writes⟩

theorem reads_aliases
    {plan : ComponentPlan} (readable : options.Readable) (planned : plan.Readable) :
    List.Forall₂ Reads (aliases options plan) (trees options plan) := by
  have steps : List.Forall₂ Reads (plan.steps.map (step options))
      (plan.steps.map fun node => (node.binding, stepTree options node)) := by
    rw [List.forall₂_map_left_iff, List.forall₂_map_right_iff, List.forall₂_same]
    intro node member
    exact reads_of_writes rfl (writes_step readable (planned.nodes node (planned.steps node member)))
  have last : Reads (result options plan) (plan.resultAlias, outputTree options plan.result) :=
    reads_of_writes rfl (writes_outputType readable planned.result).writes
  exact .cons (reads_of_writes rfl (writes_declaration readable planned))
    (List.rel_append steps (.cons last .nil))

theorem writes_wholeType {names : List String} (named : ∀ name ∈ names, Text.isIdentifier name) :
    Writes (wholeType names) (wholeTree names) := by
  have tuple : Writes ("[" ++ ", ".intercalate names ++ "]") (.tuple (names.map .named)) := by
    refine (writes_tuple ?_).writes
    rw [List.forall₂_map_right_iff, List.forall₂_same]
    exact fun name member => writes_identifier (named name member)
  rcases names with _ | ⟨first, _ | ⟨second, names⟩⟩
  · exact tuple
  · exact writes_identifier (named first List.mem_cons_self)
  · exact tuple

/-- Every statement of a file reads as what the plans say. -/
theorem reads_fileAliases
    (readable : options.Readable)
    (planned : ∀ plan ∈ plans, plan.Readable)
    (name : String) :
    List.Forall₂ Reads (fileAliases options plans name) (fileTrees options plans name) := by
  have names : ∀ name ∈ plans.map ComponentPlan.resultAlias, Text.isIdentifier name := by
    rw [List.forall_mem_map]
    exact fun plan member => (planned plan member).named
  have last : Reads (wholeResult plans name)
      (name, wholeTree (plans.map ComponentPlan.resultAlias)) :=
    reads_of_writes rfl (writes_wholeType names)
  have components :
      List.Forall₂ Reads (plans.flatMap (aliases options)) (plans.flatMap (trees options)) := by
    clear names last
    induction plans with
    | nil =>
        exact .nil
    | cons plan plans inner =>
        rw [List.forall_mem_cons] at planned
        rw [List.flatMap_cons, List.flatMap_cons]
        exact List.rel_append (reads_aliases readable planned.1) (inner planned.2)
  exact List.rel_append components (.cons last .nil)

end TypeGraph.Source
