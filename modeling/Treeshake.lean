import Treeshake.Build.Controller
import Treeshake.Build.Fault
import Treeshake.Build.Journal
import Treeshake.Build.Operation
import Treeshake.Build.Phase
import Treeshake.Build.Session
import Treeshake.Build.Settings
import Treeshake.Decimal.Shortest
import Treeshake.Ecma.Class
import Treeshake.Ecma.Cursor
import Treeshake.Ecma.Declaration
import Treeshake.Ecma.Element
import Treeshake.Ecma.Expression
import Treeshake.Ecma.Grammar
import Treeshake.Ecma.Lexer
import Treeshake.Ecma.Literal
import Treeshake.Ecma.Module
import Treeshake.Ecma.Scope
import Treeshake.Ecma.Script
import Treeshake.Ecma.Signature
import Treeshake.Ecma.Statement
import Treeshake.Ecma.Token
import Treeshake.Ecma.Tree
import Treeshake.Ecma.Type
import Treeshake.Json.Fault
import Treeshake.Json.Numeral
import Treeshake.Json.Reader
import Treeshake.Json.Value
import Treeshake.Json.Writer
import Treeshake.Library.Convention
import Treeshake.Library.Manifest
import Treeshake.Library.Table
import Treeshake.Node.Binding
import Treeshake.Node.Invocation
import Treeshake.Node.Outline
import Treeshake.Node.Shape
import Treeshake.Pattern.Basic
import Treeshake.Pattern.CharSet
import Treeshake.Pattern.PropertyName
import Treeshake.Pattern.Reader
import Treeshake.Proofs.Build.BarrelFrame
import Treeshake.Proofs.Build.BarrelLists
import Treeshake.Proofs.Build.Controller
import Treeshake.Proofs.Build.Development
import Treeshake.Proofs.Build.Gate
import Treeshake.Proofs.Build.History
import Treeshake.Proofs.Build.MissingBarrel
import Treeshake.Proofs.Build.PhaseCount
import Treeshake.Proofs.Build.RecordGrowth
import Treeshake.Proofs.Build.Reset
import Treeshake.Proofs.Build.Step
import Treeshake.Proofs.Json.Put
import Treeshake.Proofs.Node.Binding
import Treeshake.Proofs.Node.Invocation
import Treeshake.Proofs.Node.Shape
import Treeshake.Proofs.Pattern.Matching
import Treeshake.Proofs.Pattern.Pieces
import Treeshake.Proofs.Pattern.Reading
import Treeshake.Proofs.Source.BarrelExpansion
import Treeshake.Proofs.Source.BarrelKey
import Treeshake.Proofs.Source.Declaration
import Treeshake.Proofs.Source.DeclarationPattern
import Treeshake.Proofs.Source.Extraction
import Treeshake.Proofs.Source.ImportList
import Treeshake.Proofs.Source.ImportStatement
import Treeshake.Proofs.Source.Segments
import Treeshake.Proofs.Source.Lookup
import Treeshake.Proofs.Source.TemplateImports
import Treeshake.Proofs.Source.Vocabulary
import Treeshake.Proofs.Text.Erase
import Treeshake.Proofs.Text.Pieces
import Treeshake.Proofs.Text.Trim
import Treeshake.Proofs.Usage.Alias
import Treeshake.Proofs.Usage.Contribution
import Treeshake.Proofs.Usage.ScanOrder
import Treeshake.Sentinel.Resource
import Treeshake.Sentinel.Substitution
import Treeshake.Sentinel.Table
import Treeshake.Source.Barrel
import Treeshake.Source.Edit
import Treeshake.Source.Import
import Treeshake.Source.Resolution
import Treeshake.Text.Digit
import Treeshake.Text.Offset
import Treeshake.Text.Quoted
import Treeshake.Text.Search
import Treeshake.Unicode.CaseFold
import Treeshake.Unicode.Category
import Treeshake.Unicode.Property
import Treeshake.Unicode.Runs
import Treeshake.Unicode.Script
import Treeshake.Usage.Discovery
import Treeshake.Usage.NameSet
import Treeshake.Usage.Record
import Treeshake.Proofs.Pattern.Embedding
import Treeshake.Proofs.Pattern.Path
import Treeshake.Proofs.Source.Statement
import Treeshake.Proofs.Source.Agreement
import Treeshake.Proofs.Ecma.Lexing
import Treeshake.Proofs.Ecma.Names
import Treeshake.Proofs.Ecma.Placement
import Treeshake.Proofs.Ecma.Reference
import Treeshake.Proofs.Ecma.Parsing
import Treeshake.Proofs.Ecma.Signature
import Treeshake.Proofs.Ecma.Type
import Treeshake.Proofs.Ecma.Class
import Treeshake.Proofs.Ecma.Element
import Treeshake.Proofs.Ecma.Expression
import Treeshake.Proofs.Ecma.Statement
import Treeshake.Proofs.Ecma.Declaration
import Treeshake.Proofs.Ecma.Module
import Treeshake.Proofs.Ecma.Script
import Treeshake.Proofs.Sentinel.Substitution
import Treeshake.Proofs.Build.SettingsShape
import Treeshake.Proofs.Ecma.Spelling
import Treeshake.Proofs.Sentinel.Shortcut
import Treeshake.Proofs.Source.BarrelInsertion
import Treeshake.Proofs.Ecma.Filling
import Treeshake.Proofs.Sentinel.Literal
import Treeshake.Proofs.Sentinel.SecondPass
import Treeshake.Proofs.Text.Lines
import Treeshake.Proofs.Source.ImportScan
import Treeshake.Proofs.Source.ImportSettled
import Treeshake.Proofs.Source.ImportComment
import Treeshake.Proofs.Source.BarrelShorthand
import Treeshake.Proofs.Source.TemplateSettled
import Treeshake.Proofs.Source.GreedySplicing
import Treeshake.Proofs.Usage.Tally
import Treeshake.Proofs.Node.Listing
import Treeshake.Proofs.Ecma.Standing
import Treeshake.Proofs.Sentinel.CastTarget
import Treeshake.Proofs.Node.Search
import Treeshake.Proofs.Usage.NameSets
import Treeshake.Proofs.Build.SettingsOrder
import Treeshake.Proofs.Source.DisjointSplicing
import Treeshake.Proofs.Node.Place
import Treeshake.Proofs.Node.Visit
import Treeshake.Proofs.Node.Outline
import Treeshake.Proofs.Node.Position
import Treeshake.Proofs.Usage.Position
import Treeshake.Proofs.Json.Literal
import Treeshake.Proofs.Json.ReadBack
import Treeshake.Proofs.Ecma.Quotation
import Treeshake.Proofs.Sentinel.Constant
import Treeshake.Proofs.Source.BarrelPattern
import Treeshake.Proofs.Source.ImportPattern
