/-!
# Settings of a run

What a run of the command compiles and where the result goes.
-/

namespace TypeGraph.Cli

/-- The settings of a run. -/
structure Settings where
  graphPath : String
  /-- The wished name of the whole result; a blank one is no wish. -/
  name : String
  output : Option String
  optionsPath : Option String
  registryPath : Option String
  /-- Whether problems make the run fail. -/
  strict : Bool
deriving DecidableEq, Repr

end TypeGraph.Cli
