import TypeGraph.Cli.Arguments
import TypeGraph.Cli.Dialogue
import TypeGraph.Compiler
import TypeGraph.Files.Load

/-!
# Runs

What a run does: it loads the options, the registry and the graph, reports the problems, compiles,
and shows or writes the result. A run stops at the first thing that fails.
-/

namespace TypeGraph.Cli

/-- What a run shows and how it ends. -/
structure Outcome where
  exitCode : UInt8
  shown : String
  /-- The lines of messages. -/
  messages : List String
deriving DecidableEq, Repr

/-- A run that has failed after some messages. -/
def Outcome.failure (messages : List String) (reason : String) : Outcome :=
  ⟨1, "", messages ++ ["", "Error: " ++ reason]⟩

/-- A run that lacks only the result's being written. -/
structure Compiled where
  settings : Settings
  graph : Graph
  problems : List Problem
  compilation : Compilation
  messages : List String

namespace Settings

/-- The settings that arguments give; a path of a graph has to be among them. -/
def ofArguments (arguments : Arguments) : Except Outcome Settings :=
  match arguments.graphPath with
  | none => .error (.failure [] "Graph path is required in non-interactive mode.")
  | some graphPath =>
    .ok ⟨graphPath, (arguments.value? .name).getD "", arguments.value? .output,
      arguments.value? .options, arguments.value? .registry, arguments.hasFlag .strict⟩

def loadOptions (settings : Settings) (read : FileReader) : Except Outcome Options :=
  match settings.optionsPath with
  | none => .ok .standard
  | some path =>
    match Options.load read path with
    | .ok options => .ok options
    | .error error => .error (.failure [] ("Failed to load options: " ++ error.message))

/-- The registry of a run, with what is said about it. -/
def loadRegistry (settings : Settings) (read : FileReader) :
    Except Outcome (Registry × List String) :=
  match settings.registryPath with
  | none => .ok (.standard, [])
  | some path =>
    match Registry.standard.extend read path with
    | .ok (count, registry) =>
      .ok (registry,
        ["Registered " ++ toString count ++ " additional operations from '" ++ path ++ "'"])
    | .error error => .error (.failure [] ("Failed to load registry: " ++ error.message))

def loadGraph (settings : Settings) (read : FileReader) (messages : List String) :
    Except Outcome Graph :=
  match read settings.graphPath with
  | .error error =>
    .error (.failure messages
      ("Failed to read graph file '" ++ settings.graphPath ++ "': " ++ error.message))
  | .ok text =>
    match GraphFormat.detected.load text with
    | .ok graph => .ok graph
    | .error error =>
      .error (.failure messages
        ("Failed to load graph: " ++ error.message (GraphFormat.detected.complaint? text)))

/-- What is said about problems. -/
def problemLines (problems : List Problem) : List String :=
  match problems with
  | [] => ["Validation passed."]
  | problems =>
    ("Validation reported " ++ toString problems.length ++ " problem(s):")
      :: problems.map fun problem => "  - " ++ problem.message

/-- Loads and compiles. -/
def compile (settings : Settings) (read : FileReader) : Except Outcome Compiled := do
  let options ← settings.loadOptions read
  let (registry, messages) ← settings.loadRegistry read
  let compiler : Compiler := ⟨registry, options, Rule.standard⟩
  let graph ← settings.loadGraph read messages
  let problems := compiler.problems graph
  return {
    settings := settings
    graph := graph
    problems := problems
    compilation := compiler.compile graph settings.name
    messages := messages ++ problemLines problems }

end Settings

namespace Compiled

/-- What is said about the graph at the end, with a blank line behind it. -/
def summary (compiled : Compiled) : List String :=
  ["",
    "--- Graph Summary ---",
    "Nodes:        " ++ toString compiled.graph.nodes.length,
    "Edges:        " ++ toString compiled.graph.edges.length,
    "Components:   " ++ toString compiled.compilation.components.length,
    "Imports:      " ++ ", ".intercalate compiled.compilation.imports,
    ""]

def exitCode (compiled : Compiled) : UInt8 :=
  if compiled.settings.strict && !compiled.problems.isEmpty then 2 else 0

def whenShown (compiled : Compiled) : Outcome :=
  ⟨compiled.exitCode, compiled.compilation.source ++ "\n", compiled.messages ++ compiled.summary⟩

/-- The outcome when the result goes to a file. -/
def whenWritten (compiled : Compiled) (path : String) (written : Except FileError Unit) : Outcome :=
  match written with
  | .error error =>
    .failure compiled.messages
      ("Failed to write output file '" ++ path ++ "': " ++ error.message)
  | .ok () =>
    ⟨compiled.exitCode, "",
      compiled.messages ++ ("Wrote generated source to '" ++ path ++ "'") :: compiled.summary⟩

def finishIn (compiled : Compiled) (directory : Directory) : Outcome × Directory :=
  match compiled.settings.output with
  | none => (compiled.whenShown, directory)
  | some path =>
    match directory.write path compiled.compilation.source with
    | .error error => (compiled.whenWritten path (.error error), directory)
    | .ok directory => (compiled.whenWritten path (.ok ()), directory)

end Compiled

def Settings.runIn (settings : Settings) (directory : Directory) : Outcome × Directory :=
  match settings.compile directory.read with
  | .error outcome => (outcome, directory)
  | .ok compiled => compiled.finishIn directory

def Arguments.runIn (arguments : Arguments) (input : String) (directory : Directory) :
    Outcome × Directory :=
  if arguments.hasFlag .human then
    let (dialogue, shown) := Dialogue.start.converse (inputLines input)
    match dialogue.settings? with
    | none => (⟨1, Dialogue.greeting ++ shown, []⟩, directory)
    | some settings =>
      let (outcome, directory) := settings.runIn directory
      ({ outcome with shown := Dialogue.greeting ++ shown ++ outcome.shown }, directory)
  else
    match Settings.ofArguments arguments with
    | .error outcome => (outcome, directory)
    | .ok settings => settings.runIn directory

end TypeGraph.Cli
