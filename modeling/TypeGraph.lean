import TypeGraph.Cli.Run
import TypeGraph.Main
import TypeGraph.Proofs.Compiler.Capture
import TypeGraph.Proofs.Compiler.Clashes
import TypeGraph.Proofs.Compiler.Connections
import TypeGraph.Proofs.Compiler.Dangling
import TypeGraph.Proofs.Compiler.InitialValues
import TypeGraph.Proofs.Compiler.Lines
import TypeGraph.Proofs.Compiler.Renaming
import TypeGraph.Proofs.Compiler.Trust
import TypeGraph.Proofs.Graph.Analysis
import TypeGraph.Proofs.Graph.Detection
import TypeGraph.Proofs.Graph.Saving
import TypeGraph.Proofs.TypeExpr.Contexts
import TypeGraph.Proofs.TypeExpr.Enclosures
import TypeGraph.Proofs.TypeExpr.Height
import TypeGraph.Proofs.TypeExpr.InferScope
import TypeGraph.Proofs.TypeExpr.Scopes
import TypeGraph.Proofs.Validation.Crowding
import TypeGraph.Proofs.Validation.Magnitude
import TypeGraph.Proofs.Validation.MissingInputs
import TypeGraph.Proofs.Graph.Components
import TypeGraph.Proofs.Graph.Cycles
import TypeGraph.Proofs.Graph.Turns
import TypeGraph.Proofs.Compiler.UnknownOperations
import TypeGraph.Proofs.Naming.Runs
import TypeGraph.Proofs.Source.Escapes
import TypeGraph.Proofs.TypeExpr.Lexemes
import TypeGraph.Proofs.TypeExpr.Spacing
import TypeGraph.Proofs.Graph.Drawing
import TypeGraph.Proofs.Operation.Registry
import TypeGraph.Proofs.Naming.Sanitized
import TypeGraph.Proofs.Cli.Dialogue
import TypeGraph.Proofs.Graph.Counters
import TypeGraph.Proofs.TypeExpr.Formation
