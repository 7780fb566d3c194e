import DiagramLint.Binary64
import DiagramLint.Code
import DiagramLint.CommandLine.Arguments
import DiagramLint.CommandLine.Run
import DiagramLint.Config.Basic
import DiagramLint.Config.Decode
import DiagramLint.Config.Load
import DiagramLint.Config.Readers
import DiagramLint.Diagnostic
import DiagramLint.Dialect
import DiagramLint.Diff.Block
import DiagramLint.Diff.Shortest
import DiagramLint.Diff.Tidy
import DiagramLint.Diff.Unified
import DiagramLint.Edit
import DiagramLint.Files.Expand
import DiagramLint.Files.Path
import DiagramLint.Files.Pattern
import DiagramLint.Files.Tree
import DiagramLint.Flowchart.Checks
import DiagramLint.Flowchart.Language
import DiagramLint.Flowchart.Lexer
import DiagramLint.Flowchart.Link
import DiagramLint.Flowchart.Parser
import DiagramLint.Flowchart.Token
import DiagramLint.Flowchart.Tree
import DiagramLint.Grammar
import DiagramLint.Json.Basic
import DiagramLint.Json.Reader
import DiagramLint.Json.Writer
import DiagramLint.Lexing.Cursor
import DiagramLint.Lexing.Quoted
import DiagramLint.Lexing.Scan
import DiagramLint.Lexing.Token
import DiagramLint.Linter.Basic
import DiagramLint.Linter.Fixing
import DiagramLint.Linter.Result
import DiagramLint.Machine
import DiagramLint.Main
import DiagramLint.Output.Formatter
import DiagramLint.Output.Listing
import DiagramLint.Output.Record
import DiagramLint.Output.Style
import DiagramLint.Parsing.Nesting
import DiagramLint.Parsing.Reading
import DiagramLint.Pie.Language
import DiagramLint.Pie.Lexer
import DiagramLint.Pie.Parser
import DiagramLint.Pie.Token
import DiagramLint.Pie.Tree
import DiagramLint.Position
import DiagramLint.Proofs.Attempts
import DiagramLint.Proofs.Config.Inheritance
import DiagramLint.Proofs.Config.Loading
import DiagramLint.Proofs.Config.Merging
import DiagramLint.Proofs.Config.Nesting
import DiagramLint.Proofs.Edit.Splice
import DiagramLint.Proofs.Files.Places
import DiagramLint.Proofs.Files.Writing
import DiagramLint.Proofs.FirstLeast
import DiagramLint.Proofs.Flowchart.Alike
import DiagramLint.Proofs.Flowchart.Blocks
import DiagramLint.Proofs.Flowchart.Chains
import DiagramLint.Proofs.Flowchart.Charts
import DiagramLint.Proofs.Flowchart.Closers
import DiagramLint.Proofs.Flowchart.Direction
import DiagramLint.Proofs.Flowchart.Duplicates
import DiagramLint.Proofs.Flowchart.Errors
import DiagramLint.Proofs.Flowchart.Language
import DiagramLint.Proofs.Flowchart.Lexer
import DiagramLint.Proofs.Flowchart.Links
import DiagramLint.Proofs.Flowchart.Mending
import DiagramLint.Proofs.Flowchart.Misspellings
import DiagramLint.Proofs.Flowchart.Parser
import DiagramLint.Proofs.Flowchart.Patterns
import DiagramLint.Proofs.Flowchart.Showing
import DiagramLint.Proofs.Flowchart.Steps
import DiagramLint.Proofs.Flowchart.Subgraphs
import DiagramLint.Proofs.Flowchart.Tiles
import DiagramLint.Proofs.Grammar.Isolation
import DiagramLint.Proofs.Grammar.Stages
import DiagramLint.Proofs.Header.Below
import DiagramLint.Proofs.Header.Detection
import DiagramLint.Proofs.Header.Heading
import DiagramLint.Proofs.Header.Line
import DiagramLint.Proofs.Header.Passes
import DiagramLint.Proofs.Header.Repairs
import DiagramLint.Proofs.Header.Sparing
import DiagramLint.Proofs.Header.Tokens
import DiagramLint.Proofs.Json.RoundTrip
import DiagramLint.Proofs.Lexing.Clean
import DiagramLint.Proofs.Lexing.Faithful
import DiagramLint.Proofs.Lexing.Gaps
import DiagramLint.Proofs.Lexing.Inline
import DiagramLint.Proofs.Lexing.Lexers
import DiagramLint.Proofs.Lexing.Mending
import DiagramLint.Proofs.Lexing.Scan
import DiagramLint.Proofs.Lexing.Spelling
import DiagramLint.Proofs.Lexing.Tiling
import DiagramLint.Proofs.Lexing.Turns
import DiagramLint.Proofs.Linter.Answering
import DiagramLint.Proofs.Linter.Codes
import DiagramLint.Proofs.Linter.FreshLint
import DiagramLint.Proofs.Linter.Misspellings
import DiagramLint.Proofs.Linter.Pointing
import DiagramLint.Proofs.Linter.Previewing
import DiagramLint.Proofs.Linter.Reports
import DiagramLint.Proofs.Linter.SafePass
import DiagramLint.Proofs.Linter.Severities
import DiagramLint.Proofs.Linter.Showing
import DiagramLint.Proofs.Linter.Wording
import DiagramLint.Proofs.Output.Compact
import DiagramLint.Proofs.Output.Lossless
import DiagramLint.Proofs.Parsing.Blocks
import DiagramLint.Proofs.Parsing.Bookkeeping
import DiagramLint.Proofs.Parsing.Derivations
import DiagramLint.Proofs.Parsing.Moves
import DiagramLint.Proofs.Parsing.Nested
import DiagramLint.Proofs.Parsing.Within
import DiagramLint.Proofs.Pie.Charts
import DiagramLint.Proofs.Pie.Language
import DiagramLint.Proofs.Pie.Lexer
import DiagramLint.Proofs.Pie.Mending
import DiagramLint.Proofs.Pie.Misspellings
import DiagramLint.Proofs.Pie.Numerals
import DiagramLint.Proofs.Pie.Parser
import DiagramLint.Proofs.Pie.Reads
import DiagramLint.Proofs.Pie.Showing
import DiagramLint.Proofs.Pie.Spelling
import DiagramLint.Proofs.Pie.Statements
import DiagramLint.Proofs.Pie.Steps
import DiagramLint.Proofs.Pie.Tiles
import DiagramLint.Proofs.Pie.Turns
import DiagramLint.Proofs.Repair.Blocks
import DiagramLint.Proofs.Repair.Brackets
import DiagramLint.Proofs.Repair.Closing
import DiagramLint.Proofs.Repair.Convergence
import DiagramLint.Proofs.Repair.Enclosing
import DiagramLint.Proofs.Repair.Entities
import DiagramLint.Proofs.Repair.Frames
import DiagramLint.Proofs.Repair.Keywords
import DiagramLint.Proofs.Repair.Maximality
import DiagramLint.Proofs.Repair.Placing
import DiagramLint.Proofs.Repair.Proposals
import DiagramLint.Proofs.Repair.Quotes
import DiagramLint.Proofs.Repair.Selection
import DiagramLint.Proofs.Repair.Spans
import DiagramLint.Proofs.Sequence.Arrows
import DiagramLint.Proofs.Sequence.Blocks
import DiagramLint.Proofs.Sequence.Closing
import DiagramLint.Proofs.Sequence.Diagrams
import DiagramLint.Proofs.Sequence.EndRows
import DiagramLint.Proofs.Sequence.Heading
import DiagramLint.Proofs.Sequence.Language
import DiagramLint.Proofs.Sequence.Lexer
import DiagramLint.Proofs.Sequence.Mending
import DiagramLint.Proofs.Sequence.Moves
import DiagramLint.Proofs.Sequence.Pages
import DiagramLint.Proofs.Sequence.Parser
import DiagramLint.Proofs.Sequence.Rows
import DiagramLint.Proofs.Sequence.Senders
import DiagramLint.Proofs.Sequence.Showing
import DiagramLint.Proofs.Sequence.Spelling
import DiagramLint.Proofs.Sequence.Splices
import DiagramLint.Proofs.Sequence.Tiles
import DiagramLint.Proofs.Spelling
import DiagramLint.Proofs.Spelling.Distance
import DiagramLint.Proofs.Text.Bytes
import DiagramLint.Proofs.Text.Lines
import DiagramLint.Proofs.Text.Offsets
import DiagramLint.Proofs.Text.Places
import DiagramLint.Proofs.Text.Rows
import DiagramLint.Proofs.Text.Words
import DiagramLint.Repair.BlockEnd
import DiagramLint.Repair.Bracket
import DiagramLint.Repair.Convergence
import DiagramLint.Repair.Entity
import DiagramLint.Repair.Level
import DiagramLint.Repair.Pass
import DiagramLint.Repair.Proposal
import DiagramLint.Repair.Registry
import DiagramLint.Repair.Span
import DiagramLint.Repair.Strategy
import DiagramLint.Sequence.Language
import DiagramLint.Sequence.Lexer
import DiagramLint.Sequence.Parser
import DiagramLint.Sequence.Token
import DiagramLint.Sequence.Tree
import DiagramLint.Severity
import DiagramLint.Spelling
import DiagramLint.Text.Alphanumeric
import DiagramLint.Text.Basic
import DiagramLint.Text.CaseTable
import DiagramLint.Text.Casing
import DiagramLint.Text.CharTable
import DiagramLint.Text.Lines
import DiagramLint.Text.WhiteSpace
import DiagramLint.Yaml.Basic
import DiagramLint.Yaml.Reader
