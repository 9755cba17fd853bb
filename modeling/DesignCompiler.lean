import DesignCompiler.About
import DesignCompiler.Catalog.Builtin
import DesignCompiler.Catalog.Entry
import DesignCompiler.Catalog.File
import DesignCompiler.Catalog.Index
import DesignCompiler.Catalog.Literal
import DesignCompiler.Catalog.Traffic
import DesignCompiler.Command.Invocation
import DesignCompiler.Command.Run
import DesignCompiler.Command.Settings
import DesignCompiler.Command.Switches
import DesignCompiler.Conversion.Converter
import DesignCompiler.Conversion.Options
import DesignCompiler.Conversion.Result
import DesignCompiler.Decimal.Layout
import DesignCompiler.Decimal.Shortest
import DesignCompiler.Design.Export
import DesignCompiler.Design.Format
import DesignCompiler.Design.Node
import DesignCompiler.Design.Reference
import DesignCompiler.Design.Store
import DesignCompiler.Diagnostic
import DesignCompiler.Failure
import DesignCompiler.Files.Path
import DesignCompiler.Files.Tree
import DesignCompiler.Json.Basic
import DesignCompiler.Json.Decoder
import DesignCompiler.Json.Numeral
import DesignCompiler.Json.Printer
import DesignCompiler.Json.Reader
import DesignCompiler.KeyMap
import DesignCompiler.Main
import DesignCompiler.Mapping.Candidate
import DesignCompiler.Mapping.Config
import DesignCompiler.Mapping.Predicate
import DesignCompiler.Mapping.Props
import DesignCompiler.Mapping.Rule
import DesignCompiler.Mapping.Tree
import DesignCompiler.Markup.Anomaly
import DesignCompiler.Markup.Cursor
import DesignCompiler.Markup.Declaration
import DesignCompiler.Markup.Element
import DesignCompiler.Markup.Scan
import DesignCompiler.Markup.Script
import DesignCompiler.Markup.Structure
import DesignCompiler.Proofs.Catalog.Listing
import DesignCompiler.Proofs.Catalog.Lookups
import DesignCompiler.Proofs.Catalog.Names
import DesignCompiler.Proofs.Catalog.Traffic
import DesignCompiler.Proofs.Catalog.Unions
import DesignCompiler.Proofs.Conversion.Library
import DesignCompiler.Proofs.Conversion.Reuse
import DesignCompiler.Proofs.Conversion.Selections
import DesignCompiler.Proofs.Conversion.Verdicts
import DesignCompiler.Proofs.Design.DocumentFiles
import DesignCompiler.Proofs.Design.RoundTrip
import DesignCompiler.Proofs.Design.Selection
import DesignCompiler.Proofs.Design.ShareLinks
import DesignCompiler.Proofs.Files.Paths
import DesignCompiler.Proofs.Json.Fields
import DesignCompiler.Proofs.Json.Printing
import DesignCompiler.Proofs.KeyMap
import DesignCompiler.Proofs.Mapping.Accounts
import DesignCompiler.Proofs.Mapping.Contexts
import DesignCompiler.Proofs.Mapping.Labels
import DesignCompiler.Proofs.Mapping.Outcomes
import DesignCompiler.Proofs.Mapping.Outlines
import DesignCompiler.Proofs.Mapping.Ranking
import DesignCompiler.Proofs.Mapping.Texts
import DesignCompiler.Proofs.Mapping.Trees
import DesignCompiler.Proofs.Markup.Ancestors
import DesignCompiler.Proofs.Markup.Beginnings
import DesignCompiler.Proofs.Markup.BlankLines
import DesignCompiler.Proofs.Markup.Chains
import DesignCompiler.Proofs.Markup.Clauses
import DesignCompiler.Proofs.Markup.Comments
import DesignCompiler.Proofs.Markup.Declarations
import DesignCompiler.Proofs.Markup.Extensions
import DesignCompiler.Proofs.Markup.ImportClauses
import DesignCompiler.Proofs.Markup.Imports
import DesignCompiler.Proofs.Markup.Lines
import DesignCompiler.Proofs.Markup.Lookahead
import DesignCompiler.Proofs.Markup.Lookback
import DesignCompiler.Proofs.Markup.Omissions
import DesignCompiler.Proofs.Markup.Order
import DesignCompiler.Proofs.Markup.Pairing
import DesignCompiler.Proofs.Markup.Passing
import DesignCompiler.Proofs.Markup.Pieces
import DesignCompiler.Proofs.Markup.Places
import DesignCompiler.Proofs.Markup.Positions
import DesignCompiler.Proofs.Markup.Recorded
import DesignCompiler.Proofs.Markup.ScanState
import DesignCompiler.Proofs.Markup.Scanning
import DesignCompiler.Proofs.Markup.Shifts
import DesignCompiler.Proofs.Markup.Sites
import DesignCompiler.Proofs.Markup.Sources
import DesignCompiler.Proofs.Markup.Spelling
import DesignCompiler.Proofs.Markup.StatementPlaces
import DesignCompiler.Proofs.Markup.Statements
import DesignCompiler.Proofs.Markup.Strays
import DesignCompiler.Proofs.Markup.Termination
import DesignCompiler.Proofs.Markup.Turns
import DesignCompiler.Proofs.Markup.TypeParameters
import DesignCompiler.Proofs.Markup.Ways
import DesignCompiler.Proofs.Semantic.Sessions
import DesignCompiler.Proofs.Synthesis.Attributes
import DesignCompiler.Proofs.Synthesis.Bindings
import DesignCompiler.Proofs.Synthesis.Depths
import DesignCompiler.Proofs.Synthesis.Elements
import DesignCompiler.Proofs.Synthesis.Faults
import DesignCompiler.Proofs.Synthesis.ImportLines
import DesignCompiler.Proofs.Synthesis.Imports
import DesignCompiler.Proofs.Synthesis.Lines
import DesignCompiler.Proofs.Synthesis.Literals
import DesignCompiler.Proofs.Synthesis.Names
import DesignCompiler.Proofs.Synthesis.Outputs
import DesignCompiler.Proofs.Synthesis.RoundTrip
import DesignCompiler.Proofs.Synthesis.Sessions
import DesignCompiler.Proofs.Synthesis.Sources
import DesignCompiler.Proofs.Synthesis.Structures
import DesignCompiler.Proofs.Synthesis.Styles
import DesignCompiler.Proofs.Synthesis.Tags
import DesignCompiler.Proofs.Text.Behind
import DesignCompiler.Proofs.Text.Bytes
import DesignCompiler.Proofs.Text.Class
import DesignCompiler.Proofs.Text.Words
import DesignCompiler.Proofs.Validation.Aliases
import DesignCompiler.Proofs.Validation.BlankLines
import DesignCompiler.Proofs.Validation.Groups
import DesignCompiler.Proofs.Validation.Imports
import DesignCompiler.Proofs.Validation.LiteralTokens
import DesignCompiler.Proofs.Validation.Pairing
import DesignCompiler.Proofs.Validation.Reports
import DesignCompiler.Proofs.Validation.Rules
import DesignCompiler.Semantic.Builder
import DesignCompiler.Semantic.Color
import DesignCompiler.Semantic.Format
import DesignCompiler.Semantic.Node
import DesignCompiler.Synthesis.Element
import DesignCompiler.Synthesis.Literal
import DesignCompiler.Synthesis.Options
import DesignCompiler.Synthesis.Source
import DesignCompiler.Text.Class
import DesignCompiler.Text.Lowercase
import DesignCompiler.Text.Pattern
import DesignCompiler.Text.Quoted
import DesignCompiler.Text.Ranges
import DesignCompiler.Text.Split
import DesignCompiler.Toml.Quoted
import DesignCompiler.Toml.Reader
import DesignCompiler.Toml.Scalar
import DesignCompiler.Toml.Table
import DesignCompiler.Validation.Imports
import DesignCompiler.Validation.Library
import DesignCompiler.Validation.Options
import DesignCompiler.Validation.Quality
import DesignCompiler.Validation.Rule
import DesignCompiler.Validation.Verdict
