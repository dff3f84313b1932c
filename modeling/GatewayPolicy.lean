import GatewayPolicy.Authoring.Cursor
import GatewayPolicy.Authoring.Declaration
import GatewayPolicy.Authoring.Expr
import GatewayPolicy.Authoring.Expression
import GatewayPolicy.Authoring.Group
import GatewayPolicy.Authoring.Literal
import GatewayPolicy.Authoring.Operator
import GatewayPolicy.Authoring.Piece
import GatewayPolicy.Authoring.Scan
import GatewayPolicy.Authoring.Statement
import GatewayPolicy.Authoring.SyntaxError
import GatewayPolicy.Authoring.Token
import GatewayPolicy.Authoring.Trivia
import GatewayPolicy.Authoring.TypeName
import GatewayPolicy.Authoring.Unit
import GatewayPolicy.Command.Arguments
import GatewayPolicy.Command.Disk
import GatewayPolicy.Command.FileTree
import GatewayPolicy.Command.JsonValue
import GatewayPolicy.Command.Path
import GatewayPolicy.Command.Report
import GatewayPolicy.Command.Run
import GatewayPolicy.Diagnostic
import GatewayPolicy.Document.Assembly
import GatewayPolicy.Document.Compile
import GatewayPolicy.Document.Marker
import GatewayPolicy.Document.Section
import GatewayPolicy.Main
import GatewayPolicy.Markup.Element
import GatewayPolicy.Markup.Inline
import GatewayPolicy.Markup.Writer
import GatewayPolicy.Model.Constant
import GatewayPolicy.Model.Helper
import GatewayPolicy.Model.Part
import GatewayPolicy.Policy.Argument
import GatewayPolicy.Policy.Draft
import GatewayPolicy.Policy.Emission
import GatewayPolicy.Policy.Extract
import GatewayPolicy.Policy.Operation.Basic
import GatewayPolicy.Policy.Operation.Bound
import GatewayPolicy.Policy.Operation.Listing
import GatewayPolicy.Policy.Operation.Response
import GatewayPolicy.Policy.Operation.Table
import GatewayPolicy.Policy.Problem
import GatewayPolicy.Policy.Reported
import GatewayPolicy.Policy.Rule
import GatewayPolicy.Policy.Site
import GatewayPolicy.Policy.Tier
import GatewayPolicy.Policy.Value
import GatewayPolicy.Source.File
import GatewayPolicy.Source.Span
import GatewayPolicy.Text.CharClass
import GatewayPolicy.Text.LowerCase
import GatewayPolicy.Proofs.Lexical.Literal
import GatewayPolicy.Proofs.Lexical.Number
import GatewayPolicy.Proofs.Lexical.Piece
import GatewayPolicy.Proofs.Lexical.Tiling
import GatewayPolicy.Proofs.Lexical.Layout
import GatewayPolicy.Proofs.Lexical.Stripping
import GatewayPolicy.Proofs.Lexical.Stretch
import GatewayPolicy.Proofs.Lexical.Places
import GatewayPolicy.Proofs.Lexical.Spelling
import GatewayPolicy.Proofs.Reading.Alignment
import GatewayPolicy.Proofs.Reading.Skipping
import GatewayPolicy.Proofs.Reading.Tree
import GatewayPolicy.Proofs.Reading.Expression
import GatewayPolicy.Proofs.Reading.Statement
import GatewayPolicy.Proofs.Reading.File
import GatewayPolicy.Proofs.Reading.SameTokens
import GatewayPolicy.Proofs.Reading.Progress
import GatewayPolicy.Proofs.Reading.Productions
import GatewayPolicy.Proofs.Reading.Blocks
import GatewayPolicy.Proofs.Reading.Partition
import GatewayPolicy.Proofs.Reading.Running
import GatewayPolicy.Proofs.Reading.Loosening
import GatewayPolicy.Proofs.Reading.Limit
import GatewayPolicy.Proofs.Policy.Attempt
import GatewayPolicy.Proofs.Policy.Accounting
import GatewayPolicy.Proofs.Policy.Frame
import GatewayPolicy.Proofs.Policy.Locality
import GatewayPolicy.Proofs.Policy.Agreement
import GatewayPolicy.Proofs.Policy.Extraction
import GatewayPolicy.Proofs.Policy.Forms
import GatewayPolicy.Proofs.Policy.Operations
import GatewayPolicy.Proofs.Policy.Sources
import GatewayPolicy.Proofs.Policy.Statements
import GatewayPolicy.Proofs.Policy.Written
import GatewayPolicy.Proofs.Policy.RoundTrip
import GatewayPolicy.Proofs.Model.Agreement
import GatewayPolicy.Proofs.Document.Sections
import GatewayPolicy.Proofs.Document.Agreement
import GatewayPolicy.Proofs.Document.Formatting
import GatewayPolicy.Proofs.Document.LiteralData
import GatewayPolicy.Proofs.Document.InlineCode
import GatewayPolicy.Proofs.Document.Independence
import GatewayPolicy.Proofs.Markup.Decoding
import GatewayPolicy.Proofs.Markup.Layout
import GatewayPolicy.Proofs.Document.Dependence
import GatewayPolicy.Proofs.Document.Discovery
import GatewayPolicy.Proofs.Document.FileOrder
import GatewayPolicy.Proofs.Model.Constants
import GatewayPolicy.Proofs.Document.Unrelated
import GatewayPolicy.Proofs.Document.Nodes
import GatewayPolicy.Proofs.Document.Building
import GatewayPolicy.Proofs.Document.Indentation
import GatewayPolicy.Proofs.Document.Variables
import GatewayPolicy.Proofs.Document.Locations
import GatewayPolicy.Proofs.Command.Changes
import GatewayPolicy.Proofs.Document.Names
import GatewayPolicy.Proofs.Command.Completion
import GatewayPolicy.Proofs.Model.Derivation
import GatewayPolicy.Proofs.Model.Integers
import GatewayPolicy.Proofs.Document.Attributes
import GatewayPolicy.Proofs.Lexical.Quotes
import GatewayPolicy.Proofs.Reading.Turns
import GatewayPolicy.Proofs.Reading.ExpressionLoops
import GatewayPolicy.Proofs.Reading.Loops
import GatewayPolicy.Proofs.Reading.Totality
import GatewayPolicy.Proofs.Reading.Declarations
import GatewayPolicy.Proofs.Policy.Chains
import GatewayPolicy.Proofs.Policy.HelperCalls
import GatewayPolicy.Proofs.Reading.Endings
import GatewayPolicy.Proofs.Reading.ExpressionPlaces
import GatewayPolicy.Proofs.Reading.OperatorPlaces
import GatewayPolicy.Proofs.Reading.Bodies
import GatewayPolicy.Proofs.Reading.Fragments
import GatewayPolicy.Proofs.Reading.ExpressionSpans
import GatewayPolicy.Proofs.Reading.Precedence
import GatewayPolicy.Proofs.Reading.Layers
import GatewayPolicy.Proofs.Model.CopiedCode
import GatewayPolicy.Proofs.Policy.Rules
import GatewayPolicy.Proofs.Policy.Arrangement
import GatewayPolicy.Proofs.Policy.SourceOrder
import GatewayPolicy.Proofs.Policy.Tiers
import GatewayPolicy.Proofs.Policy.Traversal
import GatewayPolicy.Proofs.Policy.ListSettings
import GatewayPolicy.Proofs.Policy.NamedArguments
import GatewayPolicy.Proofs.Reading.Grouping
import GatewayPolicy.Proofs.Reading.Depth
import GatewayPolicy.Proofs.Reading.BareBraces
import GatewayPolicy.Proofs.Reading.Braces
import GatewayPolicy.Proofs.Reading.BracedExpressions
import GatewayPolicy.Proofs.Reading.BracedDeclarations
import GatewayPolicy.Proofs.Reading.Balance
import GatewayPolicy.Proofs.Reading.Groups
import GatewayPolicy.Proofs.Reading.Recovery
import GatewayPolicy.Proofs.Lexical.Escapes
import GatewayPolicy.Proofs.Document.Markers
import GatewayPolicy.Proofs.Command.Targets
