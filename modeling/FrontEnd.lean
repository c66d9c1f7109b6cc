import FrontEnd.Precedence
import FrontEnd.Token
import FrontEnd.Text.Escape
import FrontEnd.Text.Printable
import FrontEnd.Text.Combining
import FrontEnd.Text.Quoted
import FrontEnd.Lexeme
import FrontEnd.Diagnostic
import FrontEnd.Event
import FrontEnd.Reader
import FrontEnd.Tree
import FrontEnd.Tree.Render
import FrontEnd.Parse.Outcome
import FrontEnd.Parse.Chain
import FrontEnd.Parse.Expression
import FrontEnd.Parse.Declaration
import FrontEnd.Session
import FrontEnd.Hir.SymbolTable
import FrontEnd.Hir.Bindings
import FrontEnd.Hir.Names
import FrontEnd.Hir.Function
import FrontEnd.Hir.Draft
import FrontEnd.Hir.CompilationUnit
import FrontEnd.Hir.Lowering
import FrontEnd.Hir.Workbench
import FrontEnd.Compilation
import FrontEnd.CommandLine
import FrontEnd.Main
import FrontEnd.Proofs.MaximalMunch
import FrontEnd.Proofs.ByteOffsets
import FrontEnd.Proofs.Tiling
import FrontEnd.Proofs.Lockstep
import FrontEnd.Proofs.Reading
import FrontEnd.Proofs.Grouping
import FrontEnd.Proofs.Precedence
import FrontEnd.Proofs.Grammar
import FrontEnd.Proofs.Soundness
import FrontEnd.Proofs.Completeness
import FrontEnd.Proofs.Recognition
import FrontEnd.Proofs.ViablePrefix
import FrontEnd.Proofs.EarliestError
import FrontEnd.Proofs.Conservation
import FrontEnd.Proofs.DiagnosticLines
import FrontEnd.Proofs.Spelling
import FrontEnd.Proofs.Writing
import FrontEnd.Proofs.Literals
import FrontEnd.Proofs.RoundTrip
import FrontEnd.Proofs.Locality
import FrontEnd.Proofs.Concatenation
import FrontEnd.Proofs.Spacing
import FrontEnd.Proofs.Register
import FrontEnd.Proofs.Storage
import FrontEnd.Proofs.WellFormed
import FrontEnd.Proofs.Interning
import FrontEnd.Proofs.Building
import FrontEnd.Proofs.Reachable
import FrontEnd.Proofs.Resolver
import FrontEnd.Proofs.Simulation
import FrontEnd.Proofs.Growth
import FrontEnd.Proofs.Elaboration
import FrontEnd.Proofs.Confinement
import FrontEnd.Proofs.Resolution
import FrontEnd.Proofs.LoweredFunction
import FrontEnd.Proofs.ValueGraph
import FrontEnd.Proofs.Linearity
import FrontEnd.Proofs.FunctionTree
import FrontEnd.Proofs.Renaming
import FrontEnd.Proofs.Isolation
import FrontEnd.Proofs.Outline
import FrontEnd.Proofs.Nesting
import FrontEnd.Proofs.Rearrangement
import FrontEnd.Proofs.Statements
import FrontEnd.Proofs.Stacks
import FrontEnd.Proofs.Stepwise
import FrontEnd.Proofs.StepCounts
import FrontEnd.Proofs.Termination
import FrontEnd.Proofs.Reporting
import FrontEnd.Proofs.SinkLimit
import FrontEnd.Proofs.NearestBinding
import FrontEnd.Proofs.TokenLine
import FrontEnd.Proofs.FirstUses
import FrontEnd.Proofs.RegisterText
import FrontEnd.Proofs.Numbering
