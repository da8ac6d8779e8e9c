import ReaderGen.Text.Blank
import ReaderGen.Text.Identifier
import ReaderGen.Text.Order
import ReaderGen.Text.Width
import ReaderGen.Text.Source
import ReaderGen.Text.Quoted
import ReaderGen.Text.Similarity
import ReaderGen.Names
import ReaderGen.Token
import ReaderGen.Token.Word
import ReaderGen.Token.Literal
import ReaderGen.Token.Scanner
import ReaderGen.Token.Cursor
import ReaderGen.Token.Reading
import ReaderGen.Expr
import ReaderGen.Grammar
import ReaderGen.Grammar.Member
import ReaderGen.Grammar.Path
import ReaderGen.Grammar.Type
import ReaderGen.Grammar.Pattern
import ReaderGen.Grammar.Parameter
import ReaderGen.Grammar.Block
import ReaderGen.Grammar.Operand
import ReaderGen.Grammar.Expression
import ReaderGen.Grammar.Item
import ReaderGen.Grammar.Statement
import ReaderGen.Expr.Chain
import ReaderGen.Expr.Parser
import ReaderGen.Poly
import ReaderGen.Poly.Monomial
import ReaderGen.Poly.Printer
import ReaderGen.Canonical
import ReaderGen.Diagnostic
import ReaderGen.Error
import ReaderGen.Format
import ReaderGen.Format.Description
import ReaderGen.Format.Load
import ReaderGen.Decl
import ReaderGen.Decl.Table
import ReaderGen.Format.Variables
import ReaderGen.Code
import ReaderGen.Code.Merge
import ReaderGen.Code.Schedule
import ReaderGen.Layout
import ReaderGen.Cpp.Type
import ReaderGen.Cpp.Config
import ReaderGen.Cpp.Emit
import ReaderGen.Fragment
import ReaderGen.Directory
import ReaderGen.Command
import ReaderGen.Command.Run
import ReaderGen.Main
import ReaderGen.Proofs.PolyValue
import ReaderGen.Proofs.Value
import ReaderGen.Proofs.Bracketing
import ReaderGen.Proofs.Spelling
import ReaderGen.Proofs.PolyTree
import ReaderGen.Proofs.Lowering
import ReaderGen.Proofs.Origin
import ReaderGen.Proofs.Meaning
import ReaderGen.Proofs.Placement
import ReaderGen.Proofs.Unrolling
import ReaderGen.Proofs.Description
import ReaderGen.Proofs.Scope
import ReaderGen.Proofs.Agreement
import ReaderGen.Proofs.Lowered
import ReaderGen.Proofs.Relowering
import ReaderGen.Proofs.Stability
import ReaderGen.Proofs.Rereading
import ReaderGen.Proofs.Emission
import ReaderGen.Proofs.Queue
import ReaderGen.Proofs.Outcome
import ReaderGen.Proofs.Excerpt
import ReaderGen.Proofs.Attributes
import ReaderGen.Proofs.Transplant
import ReaderGen.Proofs.Draft
import ReaderGen.Proofs.RoundTrip
import ReaderGen.Proofs.Bodies
import ReaderGen.Proofs.Cancellation
import ReaderGen.Proofs.Decoding
import ReaderGen.Proofs.Derivation
import ReaderGen.Proofs.Capacity
import ReaderGen.Proofs.Nesting
import ReaderGen.Proofs.Diagnosis
import ReaderGen.Proofs.Interchange
import ReaderGen.Proofs.Dependence
import ReaderGen.Proofs.Isolation
import ReaderGen.Proofs.Choices
import ReaderGen.Proofs.Magnitude
import ReaderGen.Proofs.Commands
import ReaderGen.Proofs.Frame
import ReaderGen.Proofs.Grouping
import ReaderGen.Proofs.Boundaries
import ReaderGen.Proofs.Depth
