import TypeGraph.Cli.Settings
import TypeGraph.Text.Blank

/-!
# The dialogue

The settings of a run, asked for one by one. An answer is a line without the blanks around it, and a
blank line, or the end of the input, stands for the default. The last question is asked again until
the answer is yes or no.
-/

namespace TypeGraph.Cli

/-- The lines of an input. A line feed ends a line and is no part of it; the last line may lack
it. -/
def splitLines : List Char → List (List Char)
  | [] => []
  | c :: rest =>
    if c = '\n' then [] :: splitLines rest
    else
      match splitLines rest with
      | [] => [[c]]
      | line :: lines => (c :: line) :: lines

def inputLines (input : String) : List String :=
  (splitLines input.toList).map String.ofList

/-- The questions. -/
inductive Question where
  | graphPath
  | name
  | output
  | optionsPath
  | registryPath
  | strict
deriving DecidableEq, Repr

namespace Question

/-- The questions in the order in which they are asked. -/
def all : List Question :=
  [graphPath, name, output, optionsPath, registryPath, strict]

/-- The answer that a blank line stands for. -/
def default : Question → String
  | graphPath => "data/graph.json"
  | strict => "n"
  | _ => ""

/-- What is shown when a question is asked. -/
def prompt : Question → String
  | graphPath => "> Enter graph path [default: data/graph.json]: "
  | name => "> Enter result alias (optional): "
  | output => "> Enter output path (optional): "
  | optionsPath => "> Enter options path (optional): "
  | registryPath => "> Enter registry path (optional): "
  | strict => "> Fail on validation problems? (y/n) [default: n]: "

def answer (question : Question) (line : String) : String :=
  let text := Text.trim line
  if text = "" then question.default else text

/-- Whether an answer is a yes or a no. -/
def decision? (answer : String) : Option Bool :=
  match (answer.toList.map Char.toLower) with
  | ['y'] | ['y', 'e', 's'] => some true
  | ['n'] | ['n', 'o'] => some false
  | _ => none

def takes (question : Question) (answer : String) : Bool :=
  match question with
  | strict => (decision? answer).isSome
  | _ => true

end Question

/-- The answers given so far. -/
structure Dialogue where
  answers : List String
deriving DecidableEq, Repr

namespace Dialogue

/-- What is shown at the beginning. -/
def greeting : String :=
  "--- typeflow Interactive Mode ---\n"

/-- What is shown when an answer is not taken. -/
def refusal : String :=
  "Invalid choice. Please enter y or n.\n"

/-- The dialogue before the first answer. -/
def start : Dialogue :=
  ⟨[]⟩

/-- The question that waits for an answer. -/
def question? (dialogue : Dialogue) : Option Question :=
  Question.all[dialogue.answers.length]?

/-- The dialogue after a line, and what is shown in reply. -/
def hear (dialogue : Dialogue) (line : String) : Dialogue × String :=
  match dialogue.question? with
  | none => (dialogue, "")
  | some question =>
    let answer := question.answer line
    if question.takes answer then (⟨dialogue.answers ++ [answer]⟩, "") else (dialogue, refusal)

/-- A text that may be empty for want of one. -/
def unlessEmpty (text : String) : Option String :=
  if text = "" then none else some text

/-- The settings that the answers give, once there are enough. -/
def settings? (dialogue : Dialogue) : Option Settings :=
  match dialogue.answers with
  | [graphPath, name, output, optionsPath, registryPath, strict] =>
    some ⟨graphPath, name, unlessEmpty output, unlessEmpty optionsPath, unlessEmpty registryPath,
      (Question.decision? strict).getD false⟩
  | _ => none

/-- The dialogue after the end of the input, which answers a number of questions, and what is shown
meanwhile. -/
def closing (dialogue : Dialogue) : (count : Nat) → Dialogue × String
  | 0 => (dialogue, "")
  | count + 1 =>
    match dialogue.question? with
    | none => (dialogue, "")
    | some question =>
      let (dialogue, reply) := dialogue.hear ""
      let (final, shown) := dialogue.closing count
      (final, question.prompt ++ reply ++ shown)

/-- The dialogue after all lines and the end of the input, and what is shown meanwhile. -/
def converse (dialogue : Dialogue) : List String → Dialogue × String
  | [] => dialogue.closing Question.all.length
  | line :: lines =>
    match dialogue.question? with
    | none => (dialogue, "")
    | some question =>
      let (dialogue, reply) := dialogue.hear line
      let (final, shown) := dialogue.converse lines
      (final, question.prompt ++ reply ++ shown)

end Dialogue

end TypeGraph.Cli
