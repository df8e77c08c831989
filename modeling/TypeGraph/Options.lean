import TypeGraph.Json.Diagnosis
import TypeGraph.Json.Printer
import TypeGraph.Json.Record

/-!
# Compiler options

The names and the indentation of emitted files, and how they are read from JSON. An option that is
left out keeps its default.
-/

namespace TypeGraph

open TypeGraph.Json

/-- Names and indentation of emitted files. -/
structure Options where
  /-- The module that the import statement names. -/
  libraryModule : String
  /-- The type that declares a component. -/
  dagType : String
  /-- The type that applies an operation. -/
  execType : String
  /-- The type that takes an output of an application. -/
  outType : String
  /-- The first part of the aliases of components. -/
  componentStem : String
  /-- The alias of the whole result where no other name is wished for. -/
  resultAlias : String
  indent : String
deriving DecidableEq, Repr

namespace Options

/-- The options where nothing else is said. -/
def standard : Options where
  libraryModule := "tlang"
  dagType := "DAG"
  execType := "Exec"
  outType := "Out"
  componentStem := "TypeFlow"
  resultAlias := "Result"
  indent := "  "

instance : Inhabited Options :=
  ⟨standard⟩

/-- The types that every emitted file imports. -/
def importedTypes (options : Options) : List String :=
  [options.dagType, options.execType, options.outType]

def componentAlias (options : Options) (place : Nat) : String :=
  options.componentStem ++ "_" ++ toString (place + 1)

def componentResultAlias (options : Options) (place : Nat) : String :=
  options.componentAlias place ++ "_Result"

def ofWritten? (document : Written) : Option Options := do
  let text (default : String) : Option Written → Option String :=
    Written.optional default Written.string?
  match ← document.fields? [["module"], ["dagMacro"], ["execMacro"], ["outMacro"],
      ["componentPrefix"], ["resultAlias"], ["indent"]] with
  | [libraryModule, dagType, execType, outType, componentStem, resultAlias, indent] =>
    let libraryModule ← text standard.libraryModule libraryModule
    let dagType ← text standard.dagType dagType
    let execType ← text standard.execType execType
    let outType ← text standard.outType outType
    let componentStem ← text standard.componentStem componentStem
    let resultAlias ← text standard.resultAlias resultAlias
    let indent ← text standard.indent indent
    return ⟨libraryModule, dagType, execType, outType, componentStem, resultAlias, indent⟩
  | _ => none

def read? (text : String) : Option Options :=
  (Written.read? text).bind ofWritten?

def wanted : TextReader Unit :=
  Diagnosis.record "CompilerOptions"
    (["module", "dagMacro", "execMacro", "outMacro", "componentPrefix", "resultAlias",
      "indent"].map fun name => .spare name Diagnosis.string)

/-- Why a text describes no options. -/
def fault? (text : String) : Option Fault :=
  Diagnosis.fault? wanted text

def toJson (options : Options) : Value :=
  .object [("module", .string options.libraryModule), ("dagMacro", .string options.dagType),
    ("execMacro", .string options.execType), ("outMacro", .string options.outType),
    ("componentPrefix", .string options.componentStem),
    ("resultAlias", .string options.resultAlias), ("indent", .string options.indent)]

end Options

end TypeGraph
