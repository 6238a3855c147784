import SchemaAssist.Schema.Table
import SchemaAssist.Service.Basic
import SchemaAssist.Service.Record
import SchemaAssist.Syntax.Children
import SchemaAssist.Json.Writer
import SchemaAssist.Proofs.Token.Partition
import SchemaAssist.Proofs.Syntax.WellLinked
import SchemaAssist.Proofs.Lint.Document
import SchemaAssist.Proofs.Completion.Written
import SchemaAssist.Proofs.Token.Units
import SchemaAssist.Proofs.Token.Scan
import SchemaAssist.Proofs.Token.Rules
import SchemaAssist.Proofs.Syntax.Links
import SchemaAssist.Proofs.Syntax.Building
import SchemaAssist.Proofs.Lint.Columns
import SchemaAssist.Proofs.Schema.Emission
import SchemaAssist.Proofs.Syntax.Resolve
import SchemaAssist.Proofs.Schema.Rendered
import SchemaAssist.Proofs.Protocol.Position
import SchemaAssist.Proofs.Protocol.Edits
import SchemaAssist.Proofs.Completion.Detection
import SchemaAssist.Proofs.Completion.Offer
import SchemaAssist.Proofs.Completion.Columns
import SchemaAssist.Proofs.Completion.Replaced
import SchemaAssist.Proofs.Service.Effects
import SchemaAssist.Proofs.Service.Completion
import SchemaAssist.Proofs.Completion.LetterCase
import SchemaAssist.Proofs.Schema.Reading
import SchemaAssist.Proofs.Token.Locality
import SchemaAssist.Proofs.Token.Words
import SchemaAssist.Proofs.Token.LetterCase
import SchemaAssist.Proofs.Schema.Tokens
import SchemaAssist.Proofs.Syntax.Laminar
import SchemaAssist.Proofs.Text.Lowercase
import SchemaAssist.Proofs.Service.Validation
import SchemaAssist.Proofs.Service.Reconfiguration
import SchemaAssist.Proofs.Json.RoundTrip
import SchemaAssist.Proofs.Service.Settings
import SchemaAssist.Proofs.Token.Start
import SchemaAssist.Proofs.Token.Quoted
import SchemaAssist.Proofs.Token.Comment
import SchemaAssist.Proofs.Token.Operator
import SchemaAssist.Proofs.Completion.IndexType
import SchemaAssist.Proofs.Token.Pattern
import SchemaAssist.Proofs.Token.Number
import SchemaAssist.Proofs.Token.WordKind
import SchemaAssist.Proofs.Syntax.Positions
import SchemaAssist.Proofs.Completion.Regions
import SchemaAssist.Proofs.Completion.Ranking
import SchemaAssist.Proofs.Completion.ColumnOrder
import SchemaAssist.Proofs.Text.Search
import SchemaAssist.Proofs.Completion.TypeWords
import SchemaAssist.Proofs.Lint.Nullability
import SchemaAssist.Proofs.Protocol.Lines
import SchemaAssist.Proofs.Service.CodeActions
import SchemaAssist.Proofs.Completion.PlainText
import SchemaAssist.Proofs.Text.ByteOrder
import SchemaAssist.Proofs.Completion.Priorities
import SchemaAssist.Proofs.Protocol.SortText
import SchemaAssist.Proofs.Completion.Silence
import SchemaAssist.Proofs.Syntax.Outlines
import SchemaAssist.Proofs.Syntax.Dump
import SchemaAssist.Proofs.Syntax.Children
