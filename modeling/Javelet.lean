import Javelet.Checked
import Javelet.CommandLine
import Javelet.CommandLine.Arguments
import Javelet.Cursor
import Javelet.Declaration
import Javelet.Declaration.Parser
import Javelet.Derivation
import Javelet.Error
import Javelet.Error.Render
import Javelet.Event
import Javelet.Expression
import Javelet.Expression.Parser
import Javelet.Grammar
import Javelet.Json
import Javelet.Main
import Javelet.Obligation
import Javelet.Parser
import Javelet.Position
import Javelet.Proofs.Acceptance
import Javelet.Proofs.Admission
import Javelet.Proofs.Agreement
import Javelet.Proofs.Anatomy
import Javelet.Proofs.Barrier
import Javelet.Proofs.Bindings
import Javelet.Proofs.Boundaries
import Javelet.Proofs.Caret
import Javelet.Proofs.Checking
import Javelet.Proofs.Commas
import Javelet.Proofs.Cutting
import Javelet.Proofs.Derivable
import Javelet.Proofs.Discipline
import Javelet.Proofs.Documents
import Javelet.Proofs.Equivariance
import Javelet.Proofs.Erasure
import Javelet.Proofs.Exactness
import Javelet.Proofs.Extent
import Javelet.Proofs.Faults
import Javelet.Proofs.Files
import Javelet.Proofs.Filling
import Javelet.Proofs.Independence
import Javelet.Proofs.Labels
import Javelet.Proofs.Legibility
import Javelet.Proofs.Lines
import Javelet.Proofs.Literals
import Javelet.Proofs.Lockstep
import Javelet.Proofs.Lookahead
import Javelet.Proofs.Marks
import Javelet.Proofs.Members
import Javelet.Proofs.Naturality
import Javelet.Proofs.Nesting
import Javelet.Proofs.Noninterference
import Javelet.Proofs.Numbering
import Javelet.Proofs.Onward
import Javelet.Proofs.Partition
import Javelet.Proofs.Pointing
import Javelet.Proofs.Printing
import Javelet.Proofs.Progress
import Javelet.Proofs.Reading
import Javelet.Proofs.Relevance
import Javelet.Proofs.Reordering
import Javelet.Proofs.Reparsing
import Javelet.Proofs.Report
import Javelet.Proofs.Revision
import Javelet.Proofs.Rounds
import Javelet.Proofs.Run
import Javelet.Proofs.Scoping
import Javelet.Proofs.Shadowing
import Javelet.Proofs.Stray
import Javelet.Proofs.Visibility
import Javelet.Proofs.Vocabulary
import Javelet.Proofs.Weaving
import Javelet.Proofs.Writing
import Javelet.Proofs.Written
import Javelet.Scopes
import Javelet.Signatures
import Javelet.Signatures.Collect
import Javelet.SourceLine
import Javelet.Statement
import Javelet.Statement.Parser
import Javelet.Tag
import Javelet.Text.Blank
import Javelet.Text.Bytes
import Javelet.Text.Cursor
import Javelet.Text.Quoted
import Javelet.Text.Ranges
import Javelet.Text.Unprintable
import Javelet.Token
import Javelet.Token.Kind
import Javelet.Token.Lexeme
import Javelet.Token.Number
import Javelet.Token.Scan
import Javelet.Token.Scanner
import Javelet.TypeExpr
import Javelet.TypeExpr.Parser
import Javelet.TypeExpr.Resolve
