import Mathlib.Data.Nat.Find
import TypeGraph.Cli.Dialogue

/-!
# The end of the dialogue

A turn of the dialogue reads one line, which is empty once the input is over. The first five
questions take whatever is read. The last one waits for a line that decides it. A blank line does, so
that the dialogue is over with the first missing line at the latest.
-/

namespace TypeGraph.Cli

/-! ## Lines -/

/-- Whether some lines make up a text. A line feed ends each of them, but for a last one that goes
up to the end of the text and is not empty. -/
inductive Lines : List Char → List (List Char) → Prop where
  | nothing : Lines [] []
  | last {line : List Char} : line ≠ [] → '\n' ∉ line → Lines line [line]
  | ended {line rest : List Char} {lines : List (List Char)} :
      '\n' ∉ line → Lines rest lines → Lines (line ++ '\n' :: rest) (line :: lines)

theorem splitLines_append
    {line : List Char} (unbroken : '\n' ∉ line) (rest : List Char) :
    splitLines (line ++ '\n' :: rest) = line :: splitLines rest := by
  induction line with
  | nil =>
      simp [splitLines]
  | cons c line inner =>
      rw [List.mem_cons, not_or] at unbroken
      simp [splitLines, Ne.symm unbroken.1, inner unbroken.2]

theorem splitLines_of_not_mem
    {line : List Char} (nonempty : line ≠ []) (unbroken : '\n' ∉ line) :
    splitLines line = [line] := by
  induction line with
  | nil =>
      exact absurd rfl nonempty
  | cons c line inner =>
      rw [List.mem_cons, not_or] at unbroken
      by_cases single : line = []
      · simp [splitLines, single, Ne.symm unbroken.1]
      · simp [splitLines, Ne.symm unbroken.1, inner single unbroken.2]

/-- A character in front of a text belongs to its first line. -/
theorem Lines.cons
    {c : Char} (different : c ≠ '\n')
    {text line : List Char} {lines : List (List Char)}
    (cut : Lines text (line :: lines)) :
    Lines (c :: text) ((c :: line) :: lines) := by
  cases cut with
  | last _ unbroken =>
      have longer := List.not_mem_cons_of_ne_of_not_mem different.symm unbroken
      exact .last (List.cons_ne_nil c text) longer
  | ended unbroken later =>
      have longer := List.not_mem_cons_of_ne_of_not_mem different.symm unbroken
      exact .ended longer later

theorem lines_splitLines (text : List Char) : Lines text (splitLines text) := by
  induction text with
  | nil =>
      exact .nothing
  | cons c text inner =>
      rw [splitLines]
      by_cases ends : c = '\n'
      · rw [if_pos ends, ends]
        exact .ended List.not_mem_nil inner
      · rw [if_neg ends]
        cases cut : splitLines text with
        | nil =>
            rw [cut] at inner
            cases inner
            exact .last (List.cons_ne_nil c []) (by simpa using Ne.symm ends)
        | cons line lines =>
            rw [cut] at inner
            exact inner.cons ends

theorem lines_iff {text : List Char} {lines : List (List Char)} :
    Lines text lines ↔ splitLines text = lines := by
  constructor
  · intro cut
    induction cut with
    | nothing =>
        rfl
    | last nonempty unbroken =>
        exact splitLines_of_not_mem nonempty unbroken
    | ended unbroken _ inner =>
        rw [splitLines_append unbroken, inner]
  · rintro rfl
    exact lines_splitLines text

/-- The lines of an input are the only ones that make it up. -/
theorem lines_iff_eq_inputLines {input : String} {lines : List String} :
    Lines input.toList (lines.map String.toList) ↔ lines = inputLines input := by
  rw [lines_iff, inputLines]
  constructor
  · intro same
    rw [same, List.map_map]
    simp [Function.comp_def]
  · rintro rfl
    rw [List.map_map]
    simp [Function.comp_def]

/-! ## What lines say -/

/-- The line that a turn reads. -/
def lineAt (lines : List String) (turn : Nat) : String :=
  lines.getD turn ""

/-- What a line says, unless it is missing or blank. -/
def said? (lines : List String) (turn : Nat) : Option String :=
  (lines[turn]?.map Text.trim).filter (· ≠ "")

/-- Whether a line is a yes. No letter but those of the two words and their capitals has one of them
as its lower case. -/
def Agrees (line : String) : Prop :=
  (Text.trim line).toLower ∈ ["y", "yes"]

/-- Whether a line is a yes or a no, which a blank one is. -/
def Decides (line : String) : Prop :=
  (Text.trim line).toLower ∈ ["y", "yes", "n", "no", ""]

theorem toList_toLower (text : String) : text.toLower.toList = text.toList.map Char.toLower :=
  String.toList_map

theorem toLower_eq_empty_iff {text : String} : text.toLower = "" ↔ text = "" := by
  rw [← String.toList_inj, toList_toLower, ← String.toList_inj]
  exact List.map_eq_nil_iff

theorem decides_of_blank {line : String} (blank : Text.trim line = "") : Decides line := by
  rw [Decides, toLower_eq_empty_iff.mpr blank]
  decide

theorem Agrees.decides {line : String} (agrees : Agrees line) : Decides line :=
  List.mem_append_left ["n", "no", ""] agrees

instance (line : String) : Decidable (Agrees line) :=
  inferInstanceAs (Decidable (_ ∈ _))

instance (line : String) : Decidable (Decides line) :=
  inferInstanceAs (Decidable (_ ∈ _))

/-- Whether a turn is the first one, out of those that the last question may take, whose line is a
yes or a no. -/
structure FirstDecision (lines : List String) (turn : Nat) : Prop where
  late : 5 ≤ turn
  decides : Decides (lineAt lines turn)
  first : ∀ earlier, 5 ≤ earlier → earlier < turn → ¬ Decides (lineAt lines earlier)

/-- Whether lines spell out settings. -/
structure SpellOut (lines : List String) (settings : Settings) : Prop where
  graphPath : settings.graphPath = (said? lines 0).getD "data/graph.json"
  name : settings.name = (said? lines 1).getD ""
  output : settings.output = said? lines 2
  optionsPath : settings.optionsPath = said? lines 3
  registryPath : settings.registryPath = said? lines 4
  strict : settings.strict = true ↔ ∃ turn, FirstDecision lines turn ∧ Agrees (lineAt lines turn)

variable {lines : List String} {turn : Nat}

theorem lineAt_of_length_le (beyond : lines.length ≤ turn) : lineAt lines turn = "" := by
  rw [lineAt, List.getD_eq_getElem?_getD, List.getElem?_eq_none beyond, Option.getD_none]

theorem exists_firstDecision (lines : List String) :
    ∃ turn, FirstDecision lines turn ∧ turn ≤ max 5 lines.length := by
  have missing : Decides (lineAt lines (max 5 lines.length)) := by
    rw [lineAt_of_length_le (Nat.le_max_right _ _)]
    exact decides_of_blank rfl
  have decided : ∃ turn, 5 ≤ turn ∧ Decides (lineAt lines turn) :=
    ⟨_, Nat.le_max_left _ _, missing⟩
  refine ⟨Nat.find decided, ⟨(Nat.find_spec decided).1, (Nat.find_spec decided).2, ?_⟩, ?_⟩
  · intro earlier late less decides
    exact Nat.find_min decided less ⟨late, decides⟩
  · exact Nat.find_min' decided ⟨Nat.le_max_left _ _, missing⟩

theorem FirstDecision.unique
    {other : Nat} (left : FirstDecision lines turn) (right : FirstDecision lines other) :
    turn = other := by
  rcases Nat.lt_trichotomy turn other with less | same | greater
  · exact absurd left.decides (right.first turn left.late less)
  · exact same
  · exact absurd right.decides (left.first other right.late greater)

/-! ## Answers -/

namespace Question

theorem decision?_eq (answer : String) :
    decision? answer =
      if answer.toLower ∈ ["y", "yes"] then some true
      else if answer.toLower ∈ ["n", "no"] then some false
      else none := by
  have letters : ∀ word : String, answer.toLower = word ↔
      answer.toList.map Char.toLower = word.toList := by
    intro word
    rw [← String.toList_inj, toList_toLower]
  simp only [List.mem_cons, List.not_mem_nil, or_false, letters, decision?]
  generalize answer.toList.map Char.toLower = lower
  split <;> simp_all

/-- To the last question a blank line is a no. -/
theorem decision?_answer (line : String) :
    decision? (strict.answer line) =
      if Agrees line then some true else if Decides line then some false else none := by
  rw [answer]
  by_cases blank : Text.trim line = ""
  · have lower : (Text.trim line).toLower = "" := toLower_eq_empty_iff.mpr blank
    have disagrees : ¬ Agrees line := by simp [Agrees, lower]
    rw [if_pos blank, if_neg disagrees, if_pos (decides_of_blank blank)]
    rfl
  · have visible : ¬ (Text.trim line).toLower = "" := mt toLower_eq_empty_iff.mp blank
    rw [if_neg blank, decision?_eq]
    simp only [Agrees, Decides, List.mem_cons, List.not_mem_nil, or_false, visible]
    split <;> simp_all

theorem takes_strict_iff {line : String} : strict.takes (strict.answer line) ↔ Decides line := by
  rw [takes, decision?_answer]
  by_cases agrees : Agrees line
  · simp [agrees, agrees.decides]
  · by_cases decides : Decides line <;> simp [agrees, decides]

/-- A line that is missing or blank stands for the default. -/
theorem answer_lineAt (question : Question) (lines : List String) (turn : Nat) :
    question.answer (lineAt lines turn) = (said? lines turn).getD question.default := by
  have empty : Text.trim "" = "" := rfl
  rw [answer, said?, lineAt, List.getD_eq_getElem?_getD]
  cases lines[turn]? with
  | none =>
      simp [empty]
  | some line =>
      by_cases blank : Text.trim line = "" <;> simp [blank, Option.filter]

end Question

/-! ## Turns -/

namespace Dialogue

/-- The dialogue after a number of turns. -/
def after (dialogue : Dialogue) (lines : List String) : (turns : Nat) → Dialogue
  | 0 => dialogue
  | turns + 1 => ((dialogue.after lines turns).hear (lineAt lines turns)).1

variable {dialogue : Dialogue} {question : Question} {line : String}

theorem hear_of_finished (finished : dialogue.question? = none) :
    (dialogue.hear line).1 = dialogue := by
  rw [hear, finished]

theorem hear_of_takes
    (asked : dialogue.question? = some question)
    (takes : question.takes (question.answer line)) :
    (dialogue.hear line).1 = ⟨dialogue.answers ++ [question.answer line]⟩ := by
  simp [hear, asked, takes]

theorem hear_of_refuses
    (asked : dialogue.question? = some question)
    (refuses : ¬ question.takes (question.answer line)) :
    (dialogue.hear line).1 = dialogue := by
  simp [hear, asked, refuses]

theorem after_of_finished (finished : dialogue.question? = none) (lines : List String)
    (turns : Nat) :
    dialogue.after lines turns = dialogue := by
  induction turns with
  | zero =>
      rfl
  | succ turns inner =>
      rw [after, inner, hear_of_finished finished]

/-- The first turn comes in front of the others. -/
theorem after_succ (dialogue : Dialogue) (lines : List String) (turns : Nat) :
    dialogue.after lines (turns + 1) =
      (dialogue.hear (lineAt lines 0)).1.after lines.tail turns := by
  induction turns with
  | zero =>
      rfl
  | succ turns inner =>
      have later : lineAt lines.tail turns = lineAt lines (turns + 1) := by
        cases lines <;> rfl
      rw [after, inner, after, later]

theorem closing_eq_after (dialogue : Dialogue) (turns : Nat) :
    (dialogue.closing turns).1 = dialogue.after [] turns := by
  induction turns generalizing dialogue with
  | zero =>
      rfl
  | succ turns inner =>
      rw [closing]
      cases asked : dialogue.question? with
      | none =>
          rw [after_of_finished asked]
      | some question =>
          rw [after_succ, ← List.tail_nil]
          exact inner _

/-- The dialogue is held by turns, of which there are enough at the end of the input. -/
theorem converse_eq_after (dialogue : Dialogue) (lines : List String) :
    (dialogue.converse lines).1 = dialogue.after lines (lines.length + Question.all.length) := by
  induction lines generalizing dialogue with
  | nil =>
      rw [converse, closing_eq_after, List.length_nil, Nat.zero_add]
  | cons line lines inner =>
      rw [converse]
      cases asked : dialogue.question? with
      | none =>
          rw [after_of_finished asked]
      | some question =>
          rw [List.length_cons, Nat.add_right_comm, after_succ]
          exact inner _

/-! ## The turns of a whole dialogue -/

/-- The answers to the questions in front of the last one. -/
def openings (lines : List String) : List String :=
  [Question.graphPath.answer (lineAt lines 0), Question.name.answer (lineAt lines 1),
    Question.output.answer (lineAt lines 2), Question.optionsPath.answer (lineAt lines 3),
    Question.registryPath.answer (lineAt lines 4)]

theorem question?_openings (lines : List String) :
    (⟨openings lines⟩ : Dialogue).question? = some .strict :=
  rfl

/-- The first five questions take any line. -/
theorem after_start_of_le (lines : List String) {turns : Nat} (early : turns ≤ 5) :
    start.after lines turns = ⟨(openings lines).take turns⟩ := by
  match turns, early with
  | 0, _ | 1, _ | 2, _ | 3, _ | 4, _ | 5, _ => rfl

variable {lines : List String} {turn turns : Nat}

/-- The last question stays until a line decides it. -/
theorem after_start_of_undecided
    (late : 5 ≤ turns)
    (undecided : ∀ earlier, 5 ≤ earlier → earlier < turns → ¬ Decides (lineAt lines earlier)) :
    start.after lines turns = ⟨openings lines⟩ := by
  induction turns, late using Nat.le_induction with
  | base =>
      exact after_start_of_le lines (Nat.le_refl 5)
  | succ turns late inner =>
      have before := inner fun earlier after less =>
        undecided earlier after (Nat.lt_succ_of_lt less)
      have refuses := mt Question.takes_strict_iff.mp (undecided turns late (Nat.lt_succ_self turns))
      rw [after, before, hear_of_refuses (question?_openings lines) refuses]

/-- With the first line that decides the last question the dialogue is over. -/
theorem after_start_of_decided (decision : FirstDecision lines turn) (behind : turn < turns) :
    start.after lines turns =
      ⟨openings lines ++ [Question.strict.answer (lineAt lines turn)]⟩ := by
  induction turns, behind using Nat.le_induction with
  | base =>
      have takes := Question.takes_strict_iff.mpr decision.decides
      rw [after, after_start_of_undecided decision.late decision.first,
        hear_of_takes (question?_openings lines) takes]
  | succ turns _ inner =>
      rw [after, inner]
      exact hear_of_finished rfl

/-- Another line is read just as long as the last question waits. -/
theorem question?_after_eq_none_iff (decision : FirstDecision lines turn) :
    (start.after lines turns).question? = none ↔ turn < turns := by
  by_cases behind : turn < turns
  · rw [after_start_of_decided decision behind]
    exact iff_of_true rfl behind
  · refine iff_of_false ?_ behind
    by_cases late : 5 ≤ turns
    · rw [after_start_of_undecided late fun earlier after less =>
        decision.first earlier after (by omega), question?_openings]
      exact Option.some_ne_none _
    · rw [after_start_of_le lines (by omega), question?, List.getElem?_eq_none_iff]
      have asked : Question.all.length = 6 := rfl
      have taken : ((openings lines).take turns).length ≤ turns := List.length_take_le _ _
      dsimp only
      omega

/-! ## Settings -/

theorem unlessEmpty_said? (lines : List String) (turn : Nat) :
    unlessEmpty ((said? lines turn).getD "") = said? lines turn := by
  rw [unlessEmpty]
  cases said : said? lines turn with
  | none =>
      rfl
  | some text =>
      have visible : text ≠ "" := by
        have kept := (Option.filter_eq_some_iff.mp said).2
        simpa using kept
      rw [Option.getD_some, if_neg visible]

/-- The settings of a dialogue whose last question is decided by a line. -/
theorem settings?_openings (lines : List String) (line : String) :
    (⟨openings lines ++ [Question.strict.answer line]⟩ : Dialogue).settings? =
      some ⟨(said? lines 0).getD "data/graph.json", (said? lines 1).getD "", said? lines 2,
        said? lines 3, said? lines 4, Agrees line⟩ := by
  have decided : (Question.decision? (Question.strict.answer line)).getD false =
      decide (Agrees line) := by
    rw [Question.decision?_answer]
    by_cases agrees : Agrees line
    · simp [agrees]
    · by_cases decides : Decides line <;> simp [agrees, decides]
  rw [settings?, openings]
  simp only [List.cons_append, List.nil_append, Question.answer_lineAt, Question.default,
    unlessEmpty_said?, decided]

theorem settings?_after
    (decision : FirstDecision lines turn) (behind : turn < turns) :
    ∃ settings, (start.after lines turns).settings? = some settings ∧ SpellOut lines settings := by
  rw [after_start_of_decided decision behind, settings?_openings]
  refine ⟨_, rfl, rfl, rfl, rfl, rfl, rfl, ?_⟩
  rw [decide_eq_true_iff]
  constructor
  · intro agrees
    exact ⟨turn, decision, agrees⟩
  · rintro ⟨other, otherDecision, agrees⟩
    exact decision.unique otherDecision ▸ agrees

end Dialogue

/-- Whatever the input is, the dialogue is over after finitely many turns, with the settings that
the lines of the input spell out. -/
theorem settings_converse (input : String) :
    ∃ lines, (∀ others, Lines input.toList (others.map String.toList) ↔ others = lines) ∧
      ∃ turn, FirstDecision lines turn ∧ turn ≤ max 5 lines.length ∧
        (∀ turns, (Dialogue.start.after lines turns).question? = none ↔ turn < turns) ∧
        (Dialogue.start.converse (inputLines input)).1 = Dialogue.start.after lines (turn + 1) ∧
        ∃ settings, (Dialogue.start.converse (inputLines input)).1.settings? = some settings ∧
          SpellOut lines settings := by
  obtain ⟨turn, decision, bound⟩ := exists_firstDecision (inputLines input)
  have enough : turn < (inputLines input).length + Question.all.length := by
    have six : Question.all.length = 6 := rfl
    omega
  have final : (Dialogue.start.converse (inputLines input)).1 =
      Dialogue.start.after (inputLines input) (turn + 1) := by
    rw [Dialogue.converse_eq_after, Dialogue.after_start_of_decided decision enough,
      Dialogue.after_start_of_decided decision (Nat.lt_succ_self turn)]
  refine ⟨inputLines input, fun others => lines_iff_eq_inputLines, turn, decision, bound,
    fun turns => Dialogue.question?_after_eq_none_iff decision, final, ?_⟩
  rw [final]
  exact Dialogue.settings?_after decision (Nat.lt_succ_self turn)

example :
    (Dialogue.start.converse
        ["", "Sum", " out.txt\r", "", "\t", "perhaps", "YES", "no"]).1.settings? =
      some ⟨"data/graph.json", "Sum", some "out.txt", none, none, true⟩ := by
  rfl

end TypeGraph.Cli
