import Flowline.Builtin.Apply
import Flowline.Builtin.Basic
import Flowline.Builtin.Registry
import Flowline.Callable
import Flowline.Command.Execute
import Flowline.Command.Options
import Flowline.Command.Prompt
import Flowline.Command.Report
import Flowline.Command.Run
import Flowline.Config
import Flowline.Decimal.Notation
import Flowline.Decimal.Reader
import Flowline.Decimal.Shortest
import Flowline.Error
import Flowline.Eval.Basic
import Flowline.Eval.Fault
import Flowline.Expr
import Flowline.Log
import Flowline.Main
import Flowline.Number.Double
import Flowline.Number.Whole
import Flowline.Operator
import Flowline.Parser
import Flowline.Proofs.Laziness
import Flowline.Proofs.Parsing
import Flowline.Proofs.Recovery
import Flowline.Session
import Flowline.Symbols
import Flowline.Text.Blank
import Flowline.Text.Lines
import Flowline.Text.Quoted
import Flowline.Text.Search
import Flowline.Text.Style
import Flowline.Text.Unseen
import Flowline.Token
import Flowline.Token.Lexeme
import Flowline.Token.Lexer
import Flowline.Tree.Layout
import Flowline.Tree.Node
import Flowline.Tree.Outline
import Flowline.Tree.Store
import Flowline.Value
import Flowline.Value.Arith
import Flowline.Value.Compare
import Flowline.Proofs.Faults
import Flowline.Proofs.Ancestry
import Flowline.Proofs.Traversal
import Flowline.Proofs.Lookahead
import Flowline.Proofs.Viability
import Flowline.Proofs.Segmentation
import Flowline.Proofs.Locality
import Flowline.Proofs.Rendering
import Flowline.Proofs.Arithmetic
import Flowline.Proofs.Warnings
import Flowline.Proofs.Calls
import Flowline.Proofs.Flows
import Flowline.Proofs.Arguments
import Flowline.Proofs.Substitution
import Flowline.Proofs.Mentions
import Flowline.Proofs.Naming
import Flowline.Proofs.ErrorFree
import Flowline.Proofs.Numbering
import Flowline.Proofs.Files
import Flowline.Proofs.Coherence
import Flowline.Proofs.Exactness
import Flowline.Proofs.Lines
import Flowline.Proofs.Blanking
import Flowline.Proofs.Conditionals
import Flowline.Proofs.Rounding
import Flowline.Proofs.Order
import Flowline.Proofs.Extremum
import Flowline.Proofs.TruthValues
import Flowline.Proofs.Generators
import Flowline.Proofs.Bindings
import Flowline.Proofs.Equality
