import Scorecard.Config
import Scorecard.Config.Expansion
import Scorecard.Config.Load
import Scorecard.Digest.Hmac
import Scorecard.Digest.Sha256
import Scorecard.Engine
import Scorecard.Engine.Cache
import Scorecard.Envelope
import Scorecard.Fault
import Scorecard.Formula.Error
import Scorecard.Formula.Evaluation
import Scorecard.Formula.Expr
import Scorecard.Formula.Metrics
import Scorecard.Formula.Parser
import Scorecard.Formula.Printer
import Scorecard.Formula.Record
import Scorecard.Formula.Registry
import Scorecard.Formula.Token
import Scorecard.Json.Canonical
import Scorecard.Json.Readable
import Scorecard.Json.Reader
import Scorecard.Json.Text
import Scorecard.Number.Binary64
import Scorecard.Number.Decimal
import Scorecard.Number.Integral
import Scorecard.Number.Layout
import Scorecard.Number.Numeral
import Scorecard.Questionnaire
import Scorecard.Questionnaire.Example
import Scorecard.Questionnaire.Record
import Scorecard.Questionnaire.Report
import Scorecard.Score
import Scorecard.Score.Record
import Scorecard.Session
import Scorecard.Text.Base64Url
import Scorecard.Text.Blank
import Scorecard.Text.Digit
import Scorecard.Text.Printable
import Scorecard.Text.Quoted
import Scorecard.Text.Word
import Scorecard.Timestamp
import Scorecard.Value
import Scorecard.Value.Display
import Scorecard.Value.Field
import Scorecard.Value.Number
import Scorecard.Value.Order
import Scorecard.Value.Unfolding
import Scorecard.Walkthrough
import Scorecard.Yaml.Cursor
import Scorecard.Yaml.Document
import Scorecard.Yaml.Meaning
import Scorecard.Yaml.Node
import Scorecard.Yaml.Octets
import Scorecard.Yaml.Outline
import Scorecard.Yaml.Page
import Scorecard.Yaml.Scalar.Block
import Scorecard.Yaml.Scalar.Plain
import Scorecard.Yaml.Scalar.Quoted
import Scorecard.Yaml.Scan
import Scorecard.Yaml.Style
import Scorecard.Yaml.Token
import Scorecard.Yaml.Writer
import Scorecard.Main
import Scorecard.Proofs.Formula.Grammar
import Scorecard.Proofs.Formula.Reading
import Scorecard.Proofs.Formula.Soundness
import Scorecard.Proofs.Formula.Completeness
import Scorecard.Proofs.Formula.Language
import Scorecard.Proofs.Number.Bits
import Scorecard.Proofs.Number.Rounding
import Scorecard.Proofs.Number.Decimals
import Scorecard.Proofs.Number.Spelling
import Scorecard.Proofs.Number.Texts
import Scorecard.Proofs.Formula.Lexing
import Scorecard.Proofs.Formula.Printing
import Scorecard.Proofs.Formula.RoundTrip
import Scorecard.Proofs.Formula.Tokens
import Scorecard.Proofs.Number.Packing
import Scorecard.Proofs.Number.Unsigned
import Scorecard.Proofs.Formula.Shortest
import Scorecard.Proofs.Formula.Induction
import Scorecard.Proofs.Formula.Trees
import Scorecard.Proofs.Formula.Limits
import Scorecard.Proofs.Formula.Frontier
import Scorecard.Proofs.Formula.Prefixes
import Scorecard.Proofs.Formula.Errors
import Scorecard.Proofs.Json.Agreement
import Scorecard.Proofs.Json.Kept
import Scorecard.Proofs.Json.Numbers
import Scorecard.Proofs.Json.Reading
import Scorecard.Proofs.Json.Strings
import Scorecard.Proofs.Json.RoundTrip
import Scorecard.Proofs.Envelope.Octets
import Scorecard.Proofs.Json.Canonical
import Scorecard.Proofs.Score.Record
import Scorecard.Proofs.Envelope.Sealing
import Scorecard.Proofs.Envelope.Tokens
import Scorecard.Proofs.Envelope.Opening
import Scorecard.Proofs.Formula.Evaluation
import Scorecard.Proofs.Questionnaire.Report
import Scorecard.Proofs.Score.Bindings
import Scorecard.Proofs.Score.Session
import Scorecard.Proofs.Score.Sums
import Scorecard.Proofs.Score.Totals
import Scorecard.Proofs.Questionnaire.Scoring
import Scorecard.Proofs.Engine.Cache
import Scorecard.Proofs.Engine.Calls
import Scorecard.Proofs.Envelope.Letters
import Scorecard.Proofs.Envelope.Lines
import Scorecard.Proofs.Envelope.Keys
import Scorecard.Proofs.Formula.Reprinting
import Scorecard.Proofs.Formula.Meaning
import Scorecard.Proofs.Formula.Places
import Scorecard.Proofs.Formula.Lookups
import Scorecard.Proofs.Formula.Extension
import Scorecard.Proofs.Formula.Lexemes
import Scorecard.Proofs.Formula.Reached
import Scorecard.Proofs.Formula.Scanning
import Scorecard.Proofs.Score.Failures
import Scorecard.Proofs.Formula.Blame
import Scorecard.Proofs.Score.FirstFailure
import Scorecard.Proofs.Number.Amounts
import Scorecard.Proofs.Value.Keys
import Scorecard.Proofs.Formula.Dependence
import Scorecard.Proofs.Formula.Moving
import Scorecard.Proofs.Formula.Spacing
import Scorecard.Proofs.Score.Stored
import Scorecard.Proofs.Questionnaire.Submission
import Scorecard.Proofs.Number.Exact
import Scorecard.Proofs.Number.Order
import Scorecard.Proofs.Number.HalfAway
import Scorecard.Proofs.Value.Rounding
import Scorecard.Proofs.Value.Sorting
import Scorecard.Proofs.Json.Readable
import Scorecard.Proofs.Json.Parsed
import Scorecard.Questionnaire.Json
import Scorecard.Proofs.Questionnaire.RoundTrip
import Scorecard.Proofs.Formula.Record
import Scorecard.Proofs.Score.Breakdown
import Scorecard.Proofs.Config.Expansion
import Scorecard.Proofs.Questionnaire.Warnings
import Scorecard.Proofs.Formula.Tape
import Scorecard.Proofs.Formula.Bounds
import Scorecard.Proofs.Formula.Nesting
import Scorecard.Proofs.Envelope.Tampering
import Scorecard.Proofs.Formula.Grouping
import Scorecard.Proofs.Score.Unread
