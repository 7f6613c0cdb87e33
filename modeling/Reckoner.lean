import Reckoner.Double.Basic
import Reckoner.Double.Rounding
import Reckoner.Double.Arithmetic
import Reckoner.Double.Enclosure
import Reckoner.Double.Power
import Reckoner.Text.Blank
import Reckoner.Text.DecimalDigit
import Reckoner.Text.Printable
import Reckoner.Text.Quoted
import Reckoner.Decimal.Basic
import Reckoner.Decimal.Shortest
import Reckoner.Decimal.Style
import Reckoner.Decimal.Numeral
import Reckoner.Variables
import Reckoner.Fault
import Reckoner.Operator
import Reckoner.Token.Basic
import Reckoner.Token.Scan
import Reckoner.Token.Layout
import Reckoner.Expr.Basic
import Reckoner.Expr.Eval
import Reckoner.Expr.Parser
import Reckoner.Code.Basic
import Reckoner.Code.Compile
import Reckoner.Code.Machine
import Reckoner.Code.Draft
import Reckoner.Session.Failure
import Reckoner.Session.Observer
import Reckoner.Session.Basic
import Reckoner.Shell.Basic
import Reckoner.Shell.Options
import Reckoner.Shell.CommandLine
import Reckoner.Walkthrough
import Reckoner.Main
import Reckoner.Proofs.Failures
import Reckoner.Proofs.Evaluation
import Reckoner.Proofs.CompiledCode
import Reckoner.Proofs.Execution
import Reckoner.Proofs.History
import Reckoner.Proofs.Grammar
import Reckoner.Proofs.ParserSteps
import Reckoner.Proofs.ParserGrammar
import Reckoner.Proofs.Literals
import Reckoner.Proofs.Guards
import Reckoner.Proofs.Safety
import Reckoner.Proofs.Chunks
import Reckoner.Proofs.SyntaxErrors
import Reckoner.Proofs.Rounding
import Reckoner.Proofs.Transcript
import Reckoner.Proofs.ReadBack
import Reckoner.Proofs.Drafts
import Reckoner.Proofs.StackHeights
import Reckoner.Proofs.PostfixCode
import Reckoner.Proofs.Watching
import Reckoner.Proofs.Independence
import Reckoner.Proofs.NestingDepth
import Reckoner.Proofs.RestoredLayout
import Reckoner.Proofs.CanonicalText
import Reckoner.Proofs.ResultText
import Reckoner.Proofs.NearestDouble
import Reckoner.Proofs.Factorials
import Reckoner.Proofs.JoinedTexts
import Reckoner.Proofs.LiteralValues
import Reckoner.Proofs.TreeText
import Reckoner.Proofs.PowerSigns
import Reckoner.Proofs.Excerpts
import Reckoner.Proofs.FirstFailure
import Reckoner.Proofs.Lookahead
import Reckoner.Proofs.ParserCalls
import Reckoner.Proofs.Spans
