import TypedConfig.Binary.Basic
import TypedConfig.Binary.Shortest
import TypedConfig.Binding.Direct
import TypedConfig.Binding.Walk
import TypedConfig.CommandLine.Arguments
import TypedConfig.CommandLine.Commands
import TypedConfig.Declaration
import TypedConfig.Document.Basic
import TypedConfig.Document.Json
import TypedConfig.Document.Lookup
import TypedConfig.Document.Reader
import TypedConfig.Entries
import TypedConfig.Error
import TypedConfig.Json
import TypedConfig.Literal.Decode
import TypedConfig.Main
import TypedConfig.Period.Basic
import TypedConfig.Period.Text
import TypedConfig.Proofs.Apart
import TypedConfig.Proofs.Arena
import TypedConfig.Proofs.Binary.Exact
import TypedConfig.Proofs.Binary.Lossless
import TypedConfig.Proofs.Binding
import TypedConfig.Proofs.CommandLine.Arguments
import TypedConfig.Proofs.CommandLine.Reports
import TypedConfig.Proofs.Conversion
import TypedConfig.Proofs.Derivation
import TypedConfig.Proofs.Document.Completeness
import TypedConfig.Proofs.Document.Ending
import TypedConfig.Proofs.Document.Fault
import TypedConfig.Proofs.Document.Grammar
import TypedConfig.Proofs.Document.Layout
import TypedConfig.Proofs.Document.Lossless
import TypedConfig.Proofs.Document.Mending.Node
import TypedConfig.Proofs.Document.Mending.Series
import TypedConfig.Proofs.Document.Nesting
import TypedConfig.Proofs.Document.Parts
import TypedConfig.Proofs.Document.Placement
import TypedConfig.Proofs.Document.Progress
import TypedConfig.Proofs.Document.Quoting
import TypedConfig.Proofs.Document.Resume
import TypedConfig.Proofs.Document.Soundness
import TypedConfig.Proofs.Entries
import TypedConfig.Proofs.Erasure
import TypedConfig.Proofs.Instances
import TypedConfig.Proofs.Literal.Agreement
import TypedConfig.Proofs.Literal.Duration
import TypedConfig.Proofs.Literal.Escape
import TypedConfig.Proofs.Literal.Number
import TypedConfig.Proofs.Literal.Words
import TypedConfig.Proofs.Literal.Written
import TypedConfig.Proofs.Maps
import TypedConfig.Proofs.Minimal
import TypedConfig.Proofs.Names
import TypedConfig.Proofs.Order
import TypedConfig.Proofs.Origin
import TypedConfig.Proofs.Period.Iso
import TypedConfig.Proofs.Period.Text
import TypedConfig.Proofs.Record.Declared
import TypedConfig.Proofs.Record.DefaultName
import TypedConfig.Proofs.Record.Members
import TypedConfig.Proofs.Record.Regrouping
import TypedConfig.Proofs.Retyping.Derivation
import TypedConfig.Proofs.Retyping.Loading
import TypedConfig.Proofs.Rules
import TypedConfig.Proofs.Session
import TypedConfig.Proofs.Setters
import TypedConfig.Proofs.Sharing
import TypedConfig.Proofs.Text.LineIndex
import TypedConfig.Proofs.Token.Amounts
import TypedConfig.Proofs.Token.Edge
import TypedConfig.Proofs.Token.FallThrough
import TypedConfig.Proofs.Token.Longest
import TypedConfig.Proofs.Token.Number
import TypedConfig.Proofs.Token.Quieter
import TypedConfig.Proofs.Token.Quote
import TypedConfig.Proofs.Token.Shape
import TypedConfig.Proofs.Token.Steady
import TypedConfig.Proofs.Token.Whole
import TypedConfig.Proofs.Value.Loading
import TypedConfig.Proofs.Value.Reading
import TypedConfig.Proofs.Value.Written
import TypedConfig.Proofs.Visits
import TypedConfig.Proofs.Widening
import TypedConfig.Record.Basic
import TypedConfig.Record.Catalogue
import TypedConfig.Record.TypeText.Form
import TypedConfig.Record.TypeText.Lexeme
import TypedConfig.Record.TypeText.Paths
import TypedConfig.Record.TypeText.Types
import TypedConfig.Record.Written
import TypedConfig.Scalar
import TypedConfig.Schema
import TypedConfig.Session
import TypedConfig.Text.Basic
import TypedConfig.Text.LineIndex
import TypedConfig.Text.Outline
import TypedConfig.Text.Printable
import TypedConfig.Token.Basic
import TypedConfig.Token.Literal
import TypedConfig.Value.Basic
import TypedConfig.Value.Outline
