import QueryTidy.Text.Basic
import QueryTidy.Text.Column
import QueryTidy.Text.Printable
import QueryTidy.Text.Quoted
import QueryTidy.Text.Integer
import QueryTidy.Text.Utf8
import QueryTidy.Token.Basic
import QueryTidy.Token.Keyword
import QueryTidy.Token.Lexeme
import QueryTidy.Token.Lexer
import QueryTidy.Token.Session
import QueryTidy.Token.Dump
import QueryTidy.Place.Position
import QueryTidy.Place.Range
import QueryTidy.Place.Edit
import QueryTidy.Layout.Options
import QueryTidy.Layout.Pass
import QueryTidy.Layout.Rendering
import QueryTidy.Diagnostic
import QueryTidy.Migration.Pattern
import QueryTidy.Migration.Rule
import QueryTidy.Migration.Registry
import QueryTidy.Migration.Finding
import QueryTidy.Migration.FixAll
import QueryTidy.Migration.Action
import QueryTidy.Document
import QueryTidy.Number.Double
import QueryTidy.Number.Shortest
import QueryTidy.Wire.Value
import QueryTidy.Wire.Shown
import QueryTidy.Wire.Read
import QueryTidy.Wire.Decode
import QueryTidy.Wire.Encode
import QueryTidy.Wire.Print
import QueryTidy.Files.Path
import QueryTidy.Files.Tree
import QueryTidy.Files.Glob
import QueryTidy.Command.Arguments
import QueryTidy.Command.Outcome
import QueryTidy.Command.Request
import QueryTidy.Command.Tidy
import QueryTidy.Command.TokenList
import QueryTidy.Command.Benchmark
import QueryTidy.Main
import QueryTidy.Proofs.Lexing.Delimited
import QueryTidy.Proofs.Lexing.Reading
import QueryTidy.Proofs.Lexing.Lookahead
import QueryTidy.Proofs.Layout.Spacing
import QueryTidy.Proofs.Lexing.Shape
import QueryTidy.Proofs.Lexing.Forms
import QueryTidy.Proofs.Layout.Retokenizing
import QueryTidy.Proofs.Layout.LineEnds
import QueryTidy.Proofs.Lexing.Trimmed
import QueryTidy.Proofs.Layout.Fixpoint
import QueryTidy.Proofs.Layout.Idempotence
import QueryTidy.Proofs.Lexing.Sessions
import QueryTidy.Proofs.Place.Resolution
import QueryTidy.Proofs.Place.Splicing
import QueryTidy.Proofs.Migration.Batch
import QueryTidy.Proofs.Layout.Locality
import QueryTidy.Proofs.Migration.Matching
import QueryTidy.Proofs.Migration.Findings
import QueryTidy.Proofs.Place.Lowering
import QueryTidy.Proofs.Migration.Lines
import QueryTidy.Proofs.Migration.Offers
import QueryTidy.Proofs.Migration.Weight
import QueryTidy.Proofs.Migration.Convergence
import QueryTidy.Proofs.Lexing.Breaks
import QueryTidy.Proofs.Migration.Language
import QueryTidy.Proofs.Migration.Reports
import QueryTidy.Proofs.Migration.RuleOrder
import QueryTidy.Proofs.Layout.TopLevel
import QueryTidy.Proofs.Text.Utf8
import QueryTidy.Proofs.Text.Columns
import QueryTidy.Proofs.Files.Rewriting
import QueryTidy.Proofs.Wire.RoundTrip
import QueryTidy.Proofs.Migration.QuickFixes
import QueryTidy.Proofs.Command.Content
import QueryTidy.Proofs.Command.Tasks
import QueryTidy.Proofs.Command.Runs
import QueryTidy.Proofs.Command.Recheck
import QueryTidy.Proofs.Lexing.Replay
import QueryTidy.Proofs.Lexing.Slashes
import QueryTidy.Proofs.Place.Addressing
import QueryTidy.Proofs.Migration.Greedy
import QueryTidy.Proofs.Layout.Edits
import QueryTidy.Proofs.Migration.Coordinates
import QueryTidy.Proofs.Layout.Literals
import QueryTidy.Proofs.Lexing.Splices
import QueryTidy.Proofs.Migration.Renames
import QueryTidy.Proofs.Layout.Tidying
import QueryTidy.Proofs.Migration.Addresses
import QueryTidy.Proofs.Migration.GrepPatterns
