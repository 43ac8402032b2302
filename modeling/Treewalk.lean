import Treewalk.Command
import Treewalk.Command.Arguments
import Treewalk.Constant
import Treewalk.Diagnostic
import Treewalk.Failure
import Treewalk.Limits
import Treewalk.Main
import Treewalk.Number.Decimal
import Treewalk.Number.Shortest
import Treewalk.Number.Text
import Treewalk.Program
import Treewalk.Program.Cursor
import Treewalk.Program.Expression
import Treewalk.Program.Fault
import Treewalk.Program.Statement
import Treewalk.Prompt
import Treewalk.Report
import Treewalk.Report.Excerpt
import Treewalk.Run.Evaluate
import Treewalk.Run.Fault
import Treewalk.Run.Interpret
import Treewalk.Run.Operator
import Treewalk.Run.World
import Treewalk.Session
import Treewalk.Store
import Treewalk.Text.Blank
import Treewalk.Text.CodePoints
import Treewalk.Text.DecimalDigit
import Treewalk.Text.Letter
import Treewalk.Text.Lines
import Treewalk.Text.Printable
import Treewalk.Text.Quoted
import Treewalk.Text.Style
import Treewalk.Text.Template
import Treewalk.Text.Utf8
import Treewalk.Token
import Treewalk.Token.Piece
import Treewalk.Token.Scan
import Treewalk.Tree
import Treewalk.Tree.Outline
import Treewalk.Tree.ReversePolish
import Treewalk.Value
import Treewalk.Proofs.Grammar
import Treewalk.Proofs.Reading
import Treewalk.Proofs.Grammar.Soundness
import Treewalk.Proofs.Grammar.Completeness
import Treewalk.Proofs.Reading.Depth
import Treewalk.Proofs.Grammar.Acceptance
import Treewalk.Proofs.Reading.Trees
import Treewalk.Proofs.Run.Discipline
import Treewalk.Proofs.Run.Safety
import Treewalk.Proofs.Run.Scoping
import Treewalk.Proofs.Run.Encapsulation
import Treewalk.Proofs.Token
import Treewalk.Proofs.Token.Lexical
import Treewalk.Proofs.Token.Rescan
import Treewalk.Proofs.Reading.Steps
import Treewalk.Proofs.Reading.Returns
import Treewalk.Proofs.Run.Returns
import Treewalk.Proofs.Tree.Moved
import Treewalk.Proofs.Token.Joining
import Treewalk.Proofs.Token.Places
import Treewalk.Proofs.Reading.Progress
import Treewalk.Proofs.Reading.Transfer
import Treewalk.Proofs.Reading.Joining
import Treewalk.Proofs.Run.Simulation
import Treewalk.Proofs.Session.Joining
import Treewalk.Proofs.Run.WellScoped
import Treewalk.Proofs.Run.EmptyScopes
import Treewalk.Proofs.Run.ForLoop
import Treewalk.Proofs.Run.Blame
import Treewalk.Proofs.Text.Lines
import Treewalk.Proofs.Report
import Treewalk.Proofs.Session.Report
import Treewalk.Proofs.Prompt.Continuation
import Treewalk.Proofs.Prompt
import Treewalk.Proofs.Prompt.GreedySplit
import Treewalk.Proofs.Session.Safety
import Treewalk.Proofs.Prompt.Survival
import Treewalk.Proofs.Session.Scopes
import Treewalk.Proofs.Reading.Limit
import Treewalk.Proofs.Run.Cut
import Treewalk.Proofs.Session.Cut
import Treewalk.Proofs.Token.Rules
import Treewalk.Proofs.Reading.Recovery
import Treewalk.Proofs.Reading.Walk
import Treewalk.Proofs.Reading.Range
import Treewalk.Proofs.Session.Conclusion
import Treewalk.Proofs.Command
import Treewalk.Proofs.Prompt.Nesting
import Treewalk.Proofs.Number.Binary
import Treewalk.Proofs.Number.Rounding
import Treewalk.Proofs.Number.Decimal
import Treewalk.Proofs.Number.Numeral
import Treewalk.Proofs.Number.Faithful
import Treewalk.Proofs.Token.Spelling
import Treewalk.Proofs.Tree.SExpr
import Treewalk.Proofs.Tree.Listed
import Treewalk.Proofs.Tree.Legible
import Treewalk.Proofs.Tree.Readback
import Treewalk.Proofs.Tree.ReversePolish
import Treewalk.Proofs.Store.Lookup
import Treewalk.Proofs.Report.Excerpt
import Treewalk.Proofs.Prompt.CommandWord
