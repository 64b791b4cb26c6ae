import ScopedC.Ty
import ScopedC.Pos
import ScopedC.Token
import ScopedC.Token.Lexer
import ScopedC.Entry
import ScopedC.Scopes
import ScopedC.Syntax
import ScopedC.Syntax.Trace
import ScopedC.Parse.Error
import ScopedC.Parse.State
import ScopedC.Parse.Expr
import ScopedC.Parse.Stmt
import ScopedC.Program
import ScopedC.Unicode
import ScopedC.Pattern.Error
import ScopedC.Pattern.Hir
import ScopedC.Pattern.Parse
import ScopedC.Pattern.Search
import ScopedC.Cli.Args
import ScopedC.Cli.Log
import ScopedC.Cli.Run
import ScopedC.Cli.Directory
import ScopedC.Main
import ScopedC.Proofs.Grammar
import ScopedC.Proofs.Scoping
import ScopedC.Proofs.Reading
import ScopedC.Proofs.Soundness.Expr
import ScopedC.Proofs.Soundness.Stmt
import ScopedC.Proofs.Chain
import ScopedC.Proofs.Completeness.Expr
import ScopedC.Proofs.Completeness.Stmt
import ScopedC.Proofs.Resolution
import ScopedC.Proofs.Failures
import ScopedC.Proofs.Frames
import ScopedC.Proofs.Unambiguity
import ScopedC.Proofs.Acceptance
import ScopedC.Proofs.Prefix.Tails
import ScopedC.Proofs.Prefix.Locality
import ScopedC.Proofs.Prefix.StatementLocality
import ScopedC.Proofs.InstallLog
import ScopedC.Proofs.Relexing
import ScopedC.Proofs.Numbering.Tree
import ScopedC.Proofs.Numbering.Span
import ScopedC.Proofs.Numbering.Shift
import ScopedC.Proofs.Numbering.Parse
import ScopedC.Proofs.Outline
import ScopedC.Proofs.Literals
import ScopedC.Proofs.Layout
import ScopedC.Proofs.Declarations
import ScopedC.Proofs.Viable.Expr
import ScopedC.Proofs.Viable.Stmt
import ScopedC.Proofs.Defects
import ScopedC.Proofs.Parser.Depth
import ScopedC.Proofs.Parser.Simulation
import ScopedC.Proofs.Parser.Run
import ScopedC.Proofs.Parser.Runs
import ScopedC.Proofs.Nesting.Refinement
import ScopedC.Proofs.Nesting.Shallow
import ScopedC.Proofs.TypeText
import ScopedC.Proofs.EndOfInput
import ScopedC.Proofs.Notes
import ScopedC.Proofs.Output
import ScopedC.Proofs.Termination.Checked
import ScopedC.Proofs.Termination.Progress
