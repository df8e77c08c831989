import TypeGraph.Cli.Run

/-!
# The command

The program around a run: arguments, the terminal and the file system.
-/

namespace TypeGraph.Cli

/-- The cause of a failed file operation. -/
def fileError (error : IO.Error) : FileError :=
  match error with
  | .noFileOrDirectory .. => .missing
  | .inappropriateType .. => .isDirectory
  | other => .other (toString other)

def readText (path : String) : IO (Except FileError String) := do
  try
    let bytes ← IO.FS.readBinFile path
    match String.fromUTF8? bytes with
    | some text => return .ok text
    | none => return .error .notText
  catch error => return .error (fileError error)

def writeText (path text : String) : IO (Except FileError Unit) := do
  try
    IO.FS.writeFile path text
    return .ok ()
  catch error => return .error (fileError error)

/-- Shows what a run shows. -/
def announce (outcome : Outcome) : IO UInt32 := do
  IO.print outcome.shown
  for line in outcome.messages do
    IO.eprintln line
  return outcome.exitCode.toUInt32

/-- Reads the files that settings name, before anything is done with them. -/
def readAll (settings : Settings) : IO FileReader := do
  let paths := settings.graphPath :: (settings.optionsPath.toList ++ settings.registryPath.toList)
  let texts ← paths.mapM fun path => return (path, ← readText path)
  return fun path => (texts.lookup path).getD (.error .missing)

/-- Runs with given settings. -/
def execute (settings : Settings) : IO UInt32 := do
  match settings.compile (← readAll settings) with
  | .error outcome => announce outcome
  | .ok compiled =>
    match settings.output with
    | none => announce compiled.whenShown
    | some path =>
      let written ← writeText path compiled.compilation.source
      announce (compiled.whenWritten path written)

/-- Asks on the terminal until all questions are answered. -/
partial def ask (dialogue : Dialogue) : IO Dialogue := do
  match dialogue.question? with
  | none => return dialogue
  | some question =>
    IO.print question.prompt
    (← IO.getStdout).flush
    let (dialogue, reply) := dialogue.hear (← (← IO.getStdin).getLine)
    IO.print reply
    ask dialogue

/-- Runs with given arguments. -/
def start (list : List String) : IO UInt32 := do
  match Arguments.ofList? list with
  | none =>
    IO.eprintln "error: the arguments are out of order"
    return 2
  | some arguments =>
    if arguments.hasFlag .human then
      IO.print Dialogue.greeting
      match (← ask .start).settings? with
      | none => return 1
      | some settings => execute settings
    else
      match Settings.ofArguments arguments with
      | .error outcome => announce outcome
      | .ok settings => execute settings

end TypeGraph.Cli

/-- The program. -/
def main (list : List String) : IO UInt32 :=
  TypeGraph.Cli.start list
