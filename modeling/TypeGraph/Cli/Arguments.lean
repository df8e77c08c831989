/-!
# Command-line arguments

Options have a long name, and some a letter, which may stand together with others behind one dash.
The value of an option is the rest of its argument or the argument behind it. Nothing may be given
twice, and `--` makes everything behind it the path of a graph.
-/

namespace TypeGraph.Cli

/-- An option with a value. -/
inductive ValueOption where
  | name
  | output
  | options
  | registry
deriving DecidableEq, Repr

/-- An option without a value. -/
inductive Flag where
  | strict
  | human
deriving DecidableEq, Repr

/-- Any option. -/
inductive OptionKind where
  | value (option : ValueOption)
  | flag (flag : Flag)
deriving DecidableEq, Repr

def OptionKind.ofName? : String → Option OptionKind
  | "name" => some (.value .name)
  | "output" => some (.value .output)
  | "options" => some (.value .options)
  | "registry" => some (.value .registry)
  | "strict" => some (.flag .strict)
  | "human" => some (.flag .human)
  | _ => none

def OptionKind.ofLetter? : Char → Option OptionKind
  | 'n' => some (.value .name)
  | 'o' => some (.value .output)
  | 'i' => some (.flag .human)
  | _ => none

/-- What the arguments say. -/
structure Arguments where
  graphPath : Option String
  values : List (ValueOption × String)
  flags : List Flag
deriving DecidableEq, Repr

namespace Arguments

def empty : Arguments :=
  ⟨none, [], []⟩

def value? (arguments : Arguments) (option : ValueOption) : Option String :=
  (arguments.values.find? fun entry => entry.1 == option).map Prod.snd

/-- Whether an option without a value is given. -/
def hasFlag (arguments : Arguments) (flag : Flag) : Bool :=
  arguments.flags.contains flag

/-- One more path, which has to be the only one. -/
def addPath (arguments : Arguments) (path : String) : Option Arguments :=
  if arguments.graphPath.isSome then none else some { arguments with graphPath := some path }

/-- One more option with a value, which has to be new. -/
def addValue (arguments : Arguments) (option : ValueOption) (value : String) : Option Arguments :=
  if (arguments.value? option).isSome then none
  else some { arguments with values := arguments.values ++ [(option, value)] }

/-- One more option without a value, which has to be new. -/
def addFlag (arguments : Arguments) (flag : Flag) : Option Arguments :=
  if arguments.hasFlag flag then none
  else some { arguments with flags := arguments.flags ++ [flag] }

/-- What an argument leaves to be read. -/
inductive Pending where
  | nothing
  /-- The next argument is the value of an option. -/
  | valueOf (option : ValueOption)
  /-- All further arguments are paths. -/
  | paths
deriving DecidableEq, Repr

/-- Whether an argument can only be an option; a single dash is a value. -/
def looksLikeOption (argument : List Char) : Bool :=
  match argument with
  | '-' :: _ :: _ => true
  | _ => false

/-- Reads options by letter. The rest of the letters is the value of an option with one, with an
equals sign in front if the writer likes. -/
def readLetters (arguments : Arguments) : List Char → Option (Arguments × Pending)
  | [] => some (arguments, .nothing)
  | letter :: rest =>
    match OptionKind.ofLetter? letter with
    | none => none
    | some (.flag flag) => (arguments.addFlag flag).bind fun arguments => readLetters arguments rest
    | some (.value option) =>
      match rest with
      | [] => some (arguments, .valueOf option)
      | '=' :: value =>
        (arguments.addValue option (String.ofList value)).map fun arguments => (arguments, .nothing)
      | value =>
        (arguments.addValue option (String.ofList value)).map fun arguments => (arguments, .nothing)

/-- Reads an option by its long name, with the value behind an equals sign if there is one. -/
def readName (arguments : Arguments) (text : List Char) : Option (Arguments × Pending) :=
  let name := String.ofList (text.takeWhile (· != '='))
  match OptionKind.ofName? name, text.dropWhile (· != '=') with
  | some (.flag flag), [] => (arguments.addFlag flag).map fun arguments => (arguments, .nothing)
  | some (.value option), [] => some (arguments, .valueOf option)
  | some (.value option), _ :: value =>
    (arguments.addValue option (String.ofList value)).map fun arguments => (arguments, .nothing)
  | _, _ => none

def readArgument (arguments : Arguments) (pending : Pending) (argument : String) :
    Option (Arguments × Pending) :=
  match pending with
  | .paths => (arguments.addPath argument).map fun arguments => (arguments, .paths)
  | .valueOf option =>
    if looksLikeOption argument.toList then none
    else (arguments.addValue option argument).map fun arguments => (arguments, .nothing)
  | .nothing =>
    match argument.toList with
    | ['-', '-'] => some (arguments, .paths)
    | '-' :: '-' :: name => readName arguments name
    | '-' :: letter :: letters => readLetters arguments (letter :: letters)
    | _ => (arguments.addPath argument).map fun arguments => (arguments, .nothing)

/-- What a list of arguments says, unless it is out of order. -/
def ofList? (list : List String) : Option Arguments :=
  match
    list.foldlM (fun (arguments, pending) => readArgument arguments pending) (empty, .nothing)
  with
  | none | some (_, .valueOf _) => none
  | some (arguments, _) => some arguments

end Arguments

end TypeGraph.Cli
