import Formulary.Text.Position
import Formulary.Text.Blank
import Formulary.Text.Casing
import Formulary.Text.Lowercase
import Formulary.Text.Regex
import Formulary.Text.Wildcard
import Formulary.Number.Width
import Formulary.Number.Binary
import Formulary.Number.Shortest
import Formulary.Number.Numeral
import Formulary.Time.Calendar
import Formulary.Time.Span
import Formulary.Time.Instant
import Formulary.Time.Timestamp
import Formulary.Value.Basic
import Formulary.Value.Printer
import Formulary.Value.Operation
import Formulary.Error.Evaluation
import Formulary.Value.Conversion
import Formulary.Value.Arithmetic
import Formulary.Strategy.Basic
import Formulary.Strategy.Strict
import Formulary.Strategy.Lenient
import Formulary.Error.Lexical
import Formulary.Lex.Cursor
import Formulary.Lex.CharMap
import Formulary.Lex.Token
import Formulary.Lex.SymbolTree
import Formulary.Lex.Number
import Formulary.Lex.Quoted
import Formulary.Lex.Comment
import Formulary.Lex.State
import Formulary.Lex.Flags
import Formulary.Lex.Rules
import Formulary.Lex.Source
import Formulary.Lex.Tokenizer
import Formulary.Lex.Preset
import Formulary.Expr.Lexicon
import Formulary.Template.Lexer
import Formulary.Template.Escape
import Formulary.Registry
import Formulary.Variables
import Formulary.Functions
import Formulary.Library
import Formulary.Error.Parsing
import Formulary.Error
import Formulary.Expr.Basic
import Formulary.Expr.Sign
import Formulary.Expr.Parser
import Formulary.Expr.Program
import Formulary.Expr.Assembler
import Formulary.Expr.Environment
import Formulary.Expr.Meaning
import Formulary.Expr.Machine
import Formulary.Parser
import Formulary.Desk
import Formulary.Formula
import Formulary.Calculator
import Formulary.Template.Meaning
import Formulary.Expr.Binding
import Formulary.Template.Tag
import Formulary.Template.Node
import Formulary.Template.Scope
import Formulary.Template.Work
import Formulary.Template
import Formulary.Letter
import Formulary.Proofs.Expr.Phrase
import Formulary.Proofs.Expr.Grouping
import Formulary.Proofs.Expr.Reading
import Formulary.Proofs.Expr.Derivation
import Formulary.Proofs.Expr.Counting
import Formulary.Proofs.Expr.Inventory
import Formulary.Proofs.Expr.Accounting
import Formulary.Proofs.Expr.Balance
import Formulary.Proofs.Expr.Evaluation
import Formulary.Proofs.Template.Rendering
import Formulary.Proofs.Lex.Scanning
import Formulary.Proofs.Lex.Registrations
import Formulary.Proofs.Number.Rounding
import Formulary.Proofs.Value.Conversion
import Formulary.Proofs.Strategy.Absence
import Formulary.Proofs.Lex.Draining
import Formulary.Proofs.Lex.Lossless
import Formulary.Proofs.Lex.Streaming
import Formulary.Proofs.Template.Draft
import Formulary.Proofs.Template.Lexing
import Formulary.Proofs.Template.Inside
import Formulary.Proofs.Template.Splitting
import Formulary.Proofs.Template.RoundTrip
import Formulary.Proofs.Strategy.Matching
import Formulary.Proofs.Strategy.Extension
import Formulary.Proofs.Strategy.Sides
import Formulary.Proofs.Lex.Polishing
import Formulary.Proofs.Registry.Listing
import Formulary.Proofs.Desk.History
import Formulary.Proofs.Calculator.History
import Formulary.Proofs.Expr.References
import Formulary.Proofs.Strategy.Discretion
import Formulary.Proofs.Library.Discretion
import Formulary.Proofs.Expr.Dependence
import Formulary.Proofs.Registry.Ledger
import Formulary.Proofs.Variables.History
import Formulary.Proofs.Functions.History
import Formulary.Proofs.Template.Nesting
import Formulary.Proofs.Template.Outline
import Formulary.Proofs.Template.Escaping
import Formulary.Proofs.Template.Dependence
import Formulary.Proofs.Expr.Completion
import Formulary.Proofs.Letter.History
import Formulary.Proofs.Text.Casing
import Formulary.Proofs.Expr.Blurring
import Formulary.Proofs.Lex.Casing
import Formulary.Proofs.Lex.Spacing
import Formulary.Proofs.Expr.Lexing
import Formulary.Proofs.Expr.Alike
import Formulary.Proofs.Expr.Spacing
import Formulary.Proofs.Expr.Casing
import Formulary.Proofs.Strategy.Comparing
import Formulary.Proofs.Lex.Quoting
import Formulary.Proofs.Expr.Literals
import Formulary.Proofs.Lex.Longest
import Formulary.Proofs.Lex.Symbols
import Formulary.Proofs.Expr.Grammar
import Formulary.Proofs.Value.Whole
import Formulary.Proofs.Strategy.Whole
import Formulary.Proofs.Time.Nanoseconds
import Formulary.Proofs.Strategy.Times
import Formulary.Proofs.Number.Cutting
import Formulary.Proofs.Value.Cutting
import Formulary.Proofs.Library.Cutting
import Formulary.Proofs.Number.Writing
import Formulary.Proofs.Time.Writing
import Formulary.Proofs.Strategy.RoundTrip
import Formulary.Proofs.Text.Searching
import Formulary.Proofs.Strategy.Wildcards
import Formulary.Proofs.Lex.Places
import Formulary.Proofs.Template.Overriding
import Formulary.Proofs.Template.Inverting
import Formulary.Proofs.Strategy.Negating
import Formulary.Proofs.Expr.Negating
import Formulary.Proofs.Strategy.Ranking
import Formulary.Proofs.Library.Selecting
import Formulary.Proofs.Library.Spans
import Formulary.Proofs.Expr.Numbers
import Formulary.Proofs.Library.Fragile
import Formulary.Proofs.Library.Steps
import Formulary.Proofs.Library.Listing
import Formulary.Proofs.Library.Counting
import Formulary.Proofs.Strategy.Shifting
import Formulary.Proofs.Lex.Handing
import Formulary.Proofs.Expr.Effort
import Formulary.Proofs.Expr.Assembling
