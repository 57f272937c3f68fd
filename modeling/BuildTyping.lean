import BuildTyping.Command
import BuildTyping.Fault
import BuildTyping.Grammar.Expression
import BuildTyping.Grammar.Precedence
import BuildTyping.Grammar.Program
import BuildTyping.Grammar.Reader
import BuildTyping.Grammar.Statement
import BuildTyping.Grammar.Table
import BuildTyping.Main
import BuildTyping.Number.Binary64
import BuildTyping.Number.Digit
import BuildTyping.Number.Integer
import BuildTyping.Number.Shortest
import BuildTyping.Proofs.Grammar.Append
import BuildTyping.Proofs.Grammar.Bracketed
import BuildTyping.Proofs.Grammar.Complete
import BuildTyping.Proofs.Grammar.Ensures
import BuildTyping.Proofs.Grammar.ExprLockstep
import BuildTyping.Proofs.Grammar.ExprSame
import BuildTyping.Proofs.Grammar.Expression
import BuildTyping.Proofs.Grammar.Gives
import BuildTyping.Proofs.Grammar.Ids
import BuildTyping.Proofs.Grammar.Laminar
import BuildTyping.Proofs.Grammar.Level
import BuildTyping.Proofs.Grammar.Lockstep
import BuildTyping.Proofs.Grammar.Nesting
import BuildTyping.Proofs.Grammar.Number
import BuildTyping.Proofs.Grammar.Operand
import BuildTyping.Proofs.Grammar.Ordered
import BuildTyping.Proofs.Grammar.Part
import BuildTyping.Proofs.Grammar.Points
import BuildTyping.Proofs.Grammar.Progress
import BuildTyping.Proofs.Grammar.RoundTrip
import BuildTyping.Proofs.Grammar.Run
import BuildTyping.Proofs.Grammar.Same
import BuildTyping.Proofs.Grammar.Statement
import BuildTyping.Proofs.Grammar.StmtGives
import BuildTyping.Proofs.Grammar.StmtLockstep
import BuildTyping.Proofs.Grammar.StmtPoints
import BuildTyping.Proofs.Grammar.StmtRoundTrip
import BuildTyping.Proofs.Grammar.StmtSame
import BuildTyping.Proofs.Grammar.StmtTree
import BuildTyping.Proofs.Grammar.Table
import BuildTyping.Proofs.Grammar.Tree
import BuildTyping.Proofs.Grammar.Turns
import BuildTyping.Proofs.Grammar.Yield
import BuildTyping.Proofs.Number.Decimal
import BuildTyping.Proofs.Number.Floating
import BuildTyping.Proofs.Number.Value
import BuildTyping.Proofs.Report.Append
import BuildTyping.Proofs.Report.Caret
import BuildTyping.Proofs.Report.Listing
import BuildTyping.Proofs.Report.Location
import BuildTyping.Proofs.Report.Order
import BuildTyping.Proofs.Report.Piece
import BuildTyping.Proofs.Report.Rendering
import BuildTyping.Proofs.Syntax.Alike
import BuildTyping.Proofs.Syntax.Assignable
import BuildTyping.Proofs.Syntax.Bare
import BuildTyping.Proofs.Syntax.Extends
import BuildTyping.Proofs.Syntax.Layout
import BuildTyping.Proofs.Syntax.Parallel
import BuildTyping.Proofs.Syntax.PostOrder
import BuildTyping.Proofs.Syntax.Ranks
import BuildTyping.Proofs.Syntax.Targets
import BuildTyping.Proofs.Syntax.Words
import BuildTyping.Proofs.Syntax.Yield
import BuildTyping.Proofs.Text.Collapse
import BuildTyping.Proofs.Text.Offset
import BuildTyping.Proofs.Text.Place
import BuildTyping.Proofs.Text.Slice
import BuildTyping.Proofs.Token.Ahead
import BuildTyping.Proofs.Token.Append
import BuildTyping.Proofs.Token.Arrival
import BuildTyping.Proofs.Token.Balanced
import BuildTyping.Proofs.Token.Block
import BuildTyping.Proofs.Token.BlockLiteral
import BuildTyping.Proofs.Token.Brackets
import BuildTyping.Proofs.Token.Cut
import BuildTyping.Proofs.Token.Framing
import BuildTyping.Proofs.Token.Hollow
import BuildTyping.Proofs.Token.Indentation
import BuildTyping.Proofs.Token.Insertion
import BuildTyping.Proofs.Token.Line
import BuildTyping.Proofs.Token.Literal
import BuildTyping.Proofs.Token.Lookahead
import BuildTyping.Proofs.Token.Numeral
import BuildTyping.Proofs.Token.Offside
import BuildTyping.Proofs.Token.Reach
import BuildTyping.Proofs.Token.Refusal
import BuildTyping.Proofs.Token.Spelled
import BuildTyping.Proofs.Token.Spelling
import BuildTyping.Proofs.Token.Step
import BuildTyping.Proofs.Token.Tiling
import BuildTyping.Proofs.Token.Unclosed
import BuildTyping.Proofs.Token.Visible
import BuildTyping.Proofs.Token.Written
import BuildTyping.Proofs.Typing.Counterpart
import BuildTyping.Proofs.Typing.Coverage
import BuildTyping.Proofs.Typing.Extends
import BuildTyping.Proofs.Typing.Flat
import BuildTyping.Proofs.Typing.Frame
import BuildTyping.Proofs.Typing.History
import BuildTyping.Proofs.Typing.Isolation
import BuildTyping.Proofs.Typing.Records
import BuildTyping.Proofs.Typing.Renaming
import BuildTyping.Proofs.Typing.Replay
import BuildTyping.Proofs.Typing.Run
import BuildTyping.Proofs.Typing.Scoping
import BuildTyping.Proofs.Typing.Simulation
import BuildTyping.Report.Annotated
import BuildTyping.Report.Listing
import BuildTyping.Report.Mark
import BuildTyping.Span
import BuildTyping.Syntax.Expr
import BuildTyping.Syntax.Operator
import BuildTyping.Syntax.Outline
import BuildTyping.Syntax.Stmt
import BuildTyping.Text.Blank
import BuildTyping.Text.Bytes
import BuildTyping.Text.Letter
import BuildTyping.Text.Line
import BuildTyping.Text.Outline
import BuildTyping.Text.Printable
import BuildTyping.Text.Quoted
import BuildTyping.Text.Ranges
import BuildTyping.Token.Basic
import BuildTyping.Token.Cursor
import BuildTyping.Token.Kind
import BuildTyping.Token.Lexeme
import BuildTyping.Token.Numeral
import BuildTyping.Token.Quotation
import BuildTyping.Token.Scan
import BuildTyping.Trace
import BuildTyping.Typing.Event
import BuildTyping.Typing.Inference
import BuildTyping.Typing.Scope
import BuildTyping.Typing.Ty
