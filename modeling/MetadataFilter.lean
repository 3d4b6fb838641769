import MetadataFilter.Backend
import MetadataFilter.Cache
import MetadataFilter.Cli.Action
import MetadataFilter.Cli.Completions
import MetadataFilter.Cli.ConfigFile
import MetadataFilter.Cli.Failure
import MetadataFilter.Cli.Filters
import MetadataFilter.Cli.Invocation
import MetadataFilter.Cli.Report
import MetadataFilter.Cli.Run
import MetadataFilter.Cli.Style
import MetadataFilter.Cli.Usage
import MetadataFilter.Cli.Vocabulary
import MetadataFilter.Cli.Words
import MetadataFilter.Diagnostic
import MetadataFilter.Double.Basic
import MetadataFilter.Double.Decimal
import MetadataFilter.Double.Nearest
import MetadataFilter.Double.Text
import MetadataFilter.Expr
import MetadataFilter.Expr.Document
import MetadataFilter.Expr.Parser
import MetadataFilter.FieldMap
import MetadataFilter.Files.Basic
import MetadataFilter.Files.Tree
import MetadataFilter.FilterError
import MetadataFilter.Json
import MetadataFilter.Json.Reader
import MetadataFilter.Main
import MetadataFilter.Position
import MetadataFilter.Render
import MetadataFilter.Render.Config
import MetadataFilter.Render.ConfigDocument
import MetadataFilter.Render.Construct
import MetadataFilter.Render.Cypher
import MetadataFilter.Render.Dialect
import MetadataFilter.Render.Document
import MetadataFilter.Render.FilterText
import MetadataFilter.Render.JsonPath
import MetadataFilter.Render.Sql
import MetadataFilter.Settings
import MetadataFilter.Text.Blank
import MetadataFilter.Text.Digits
import MetadataFilter.Text.EditDistance
import MetadataFilter.Text.Lines
import MetadataFilter.Text.Quoted
import MetadataFilter.Text.Reader
import MetadataFilter.Text.WordTable
import MetadataFilter.Token
import MetadataFilter.Token.Lexer
import MetadataFilter.Toml.Number
import MetadataFilter.Toml.Reader
import MetadataFilter.Toml.Text
import MetadataFilter.Toml.Tree
import MetadataFilter.Toml.Writer
import MetadataFilter.Proofs.Diagnostic
import MetadataFilter.Proofs.Grammar
import MetadataFilter.Proofs.Grammar.FailFast
import MetadataFilter.Proofs.Grammar.Feed
import MetadataFilter.Proofs.Grammar.Levels
import MetadataFilter.Proofs.Grammar.Lookahead
import MetadataFilter.Proofs.Grammar.Soundness
import MetadataFilter.Proofs.Grammar.Completeness
import MetadataFilter.Proofs.Text.Span
import MetadataFilter.Proofs.Token.Boundary
import MetadataFilter.Proofs.Token.Normalize
import MetadataFilter.Proofs.Token.Places
import MetadataFilter.Proofs.Token.Front
import MetadataFilter.Proofs.Token.Stream
import MetadataFilter.Proofs.Grammar.Parse
import MetadataFilter.Proofs.Expr.Grouping
import MetadataFilter.Proofs.Render.Verbatim
import MetadataFilter.Proofs.Text.Lines
import MetadataFilter.Proofs.Text.Numeral
import MetadataFilter.Proofs.Token.Spelling
import MetadataFilter.Proofs.Expr.Keys
import MetadataFilter.Proofs.Render.FilterText
import MetadataFilter.Proofs.Render.Invariance
import MetadataFilter.Proofs.Render.RoundTrip
import MetadataFilter.Proofs.Reading.Climb
import MetadataFilter.Proofs.Reading.Scan
import MetadataFilter.Proofs.Reading.Sql
import MetadataFilter.Proofs.Render.Sql
import MetadataFilter.Proofs.Reading.JsonPath
import MetadataFilter.Proofs.Expr.Meaning
import MetadataFilter.Proofs.Render.JsonPath
import MetadataFilter.Proofs.Expr.Nesting
import MetadataFilter.Proofs.Grammar.Limits
import MetadataFilter.Proofs.Expr.Leaves
import MetadataFilter.Proofs.Expr.Spellable
import MetadataFilter.Proofs.Reading.Document
import MetadataFilter.Proofs.Grammar.Spellable
import MetadataFilter.Proofs.Grammar.Names
import MetadataFilter.Proofs.Render.Pending
import MetadataFilter.Proofs.Render.Document
import MetadataFilter.Proofs.Render.Failure
import MetadataFilter.Proofs.Text.Doubled
import MetadataFilter.Proofs.Reading.Cypher
import MetadataFilter.Proofs.Render.Cypher
import MetadataFilter.Proofs.Token.Lexeme
import MetadataFilter.Proofs.Token.Longest
import MetadataFilter.Proofs.Cache
import MetadataFilter.Proofs.Render.Source
import MetadataFilter.Proofs.Render.Expressible
import MetadataFilter.Proofs.Token.Symbols
import MetadataFilter.Proofs.Grammar.Paraphrase
import MetadataFilter.Proofs.Cli.Outcome
import MetadataFilter.Proofs.Cli.Printing
import MetadataFilter.Proofs.Cli.Options
import MetadataFilter.Proofs.Toml.Strings
import MetadataFilter.Proofs.Toml.Document
import MetadataFilter.Proofs.Settings.Text
import MetadataFilter.Proofs.Settings.Slots
import MetadataFilter.Proofs.Files
import MetadataFilter.Proofs.Cli.Writing
import MetadataFilter.Proofs.Cli.ConfigFile
import MetadataFilter.Proofs.Json.Grammar
import MetadataFilter.Proofs.Cli.Faults
import MetadataFilter.Proofs.Cli.Contract
import MetadataFilter.Proofs.Token.Positions
import MetadataFilter.Proofs.Grammar.Automaton
import MetadataFilter.Proofs.Grammar.Recognition
import MetadataFilter.Proofs.Grammar.Refusal
import MetadataFilter.Proofs.Grammar.Expected
import MetadataFilter.Proofs.Grammar.Errors
import MetadataFilter.Proofs.Render.OneLine
import MetadataFilter.Proofs.Cli.Agreement
import MetadataFilter.Proofs.Cache.Sharing
import MetadataFilter.Proofs.Render.Chain
import MetadataFilter.Proofs.Expr.Parentheses
import MetadataFilter.Proofs.Text.Pairs
import MetadataFilter.Proofs.Render.Minimal
import MetadataFilter.Proofs.Expr.Flatten
import MetadataFilter.Proofs.Render.Flatten
import MetadataFilter.Proofs.Token.Moved
import MetadataFilter.Proofs.Cli.WhereInFront
import MetadataFilter.Proofs.Grammar.Hints
import MetadataFilter.Proofs.Token.StringRun
import MetadataFilter.Proofs.Grammar.ValueContext
import MetadataFilter.Proofs.Grammar.StringValues
import MetadataFilter.Proofs.Token.Respaced
import MetadataFilter.Proofs.Render.Stores
import MetadataFilter.Proofs.Expr.Nodes
import MetadataFilter.Proofs.Render.Characters
import MetadataFilter.Proofs.Cli.Drawing
import MetadataFilter.Proofs.Cli.Colours
import MetadataFilter.Proofs.Render.Identifiers
import MetadataFilter.Proofs.Render.Quoting
import MetadataFilter.Proofs.Render.NulCharacter
