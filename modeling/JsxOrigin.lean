import JsxOrigin.Cli.Arguments
import JsxOrigin.Cli.Console
import JsxOrigin.Cli.Run
import JsxOrigin.Cli.Terminal
import JsxOrigin.Json.Basic
import JsxOrigin.Json.Reader
import JsxOrigin.Json.Writer
import JsxOrigin.Main
import JsxOrigin.ModuleGraph.Basic
import JsxOrigin.ModuleGraph.Codec
import JsxOrigin.ModuleGraph.Collect
import JsxOrigin.ModuleGraph.LiteralIndex
import JsxOrigin.Names.AccessPath
import JsxOrigin.Names.Binding
import JsxOrigin.Names.Reference
import JsxOrigin.Number.Binary64
import JsxOrigin.Number.Literal
import JsxOrigin.Number.Padded
import JsxOrigin.Number.Shortest
import JsxOrigin.Project.Dependencies
import JsxOrigin.Project.Failure
import JsxOrigin.Project.Language
import JsxOrigin.Project.Registry
import JsxOrigin.Project.Resolution
import JsxOrigin.Project.Scan
import JsxOrigin.Project.Snapshot
import JsxOrigin.Project.Workspace
import JsxOrigin.Proofs.Correspondence
import JsxOrigin.Proofs.Json.Document
import JsxOrigin.Proofs.Json.Layout
import JsxOrigin.Proofs.Json.RoundTrip
import JsxOrigin.Proofs.ModuleGraph.Acceptance
import JsxOrigin.Proofs.ModuleGraph.Declarations
import JsxOrigin.Proofs.ModuleGraph.LiteralLeaves
import JsxOrigin.Proofs.ModuleGraph.LiteralPaths
import JsxOrigin.Proofs.ModuleGraph.RoundTrip
import JsxOrigin.Proofs.ModuleGraph.TracedLeaves
import JsxOrigin.Proofs.Names.AccessPath
import JsxOrigin.Proofs.Names.Parentheses
import JsxOrigin.Proofs.Names.Reference
import JsxOrigin.Proofs.Number.Exactness
import JsxOrigin.Proofs.Number.Spelling
import JsxOrigin.Proofs.Project.Accounting
import JsxOrigin.Proofs.Project.AliasOrder
import JsxOrigin.Proofs.Project.Dependencies
import JsxOrigin.Proofs.Project.Discovery
import JsxOrigin.Proofs.Project.KeptGraphs
import JsxOrigin.Proofs.Project.Refusals
import JsxOrigin.Proofs.Project.Registration
import JsxOrigin.Proofs.Project.Resolution
import JsxOrigin.Proofs.Project.SourceFiles
import JsxOrigin.Proofs.Project.TextualScans
import JsxOrigin.Proofs.Project.Transparency
import JsxOrigin.Proofs.Provenance.Candidate
import JsxOrigin.Proofs.Provenance.Dependence
import JsxOrigin.Proofs.Provenance.Expansion
import JsxOrigin.Proofs.Provenance.Feeding
import JsxOrigin.Proofs.Provenance.Growth
import JsxOrigin.Proofs.Provenance.Parentheses
import JsxOrigin.Proofs.Provenance.Reach
import JsxOrigin.Proofs.Provenance.Truncation
import JsxOrigin.Proofs.Provenance.Visits
import JsxOrigin.Proofs.Rendering.DataExpressions
import JsxOrigin.Proofs.Rendering.DeclarationOrder
import JsxOrigin.Proofs.Rendering.Passes
import JsxOrigin.Proofs.Rendering.Spans
import JsxOrigin.Proofs.Settings.TolerantJson
import JsxOrigin.Proofs.Storage.KeptGraph
import JsxOrigin.Proofs.Storage.Lookup
import JsxOrigin.Proofs.Storage.OpenStore
import JsxOrigin.Proofs.Storage.Operations
import JsxOrigin.Proofs.Storage.Path
import JsxOrigin.Proofs.Storage.StoreHistory
import JsxOrigin.Proofs.Storage.TextualPath
import JsxOrigin.Proofs.Storage.WellFormed
import JsxOrigin.Proofs.Syntax.ArrayPositions
import JsxOrigin.Proofs.Syntax.DocumentOrder
import JsxOrigin.Proofs.Syntax.Nodes
import JsxOrigin.Proofs.Syntax.Parentheses
import JsxOrigin.Proofs.Syntax.Spelling
import JsxOrigin.Proofs.Syntax.Walk
import JsxOrigin.Proofs.Table
import JsxOrigin.Proofs.Text.Numeral
import JsxOrigin.Proofs.Text.Order
import JsxOrigin.Proofs.Text.Pairs
import JsxOrigin.Proofs.Text.Units
import JsxOrigin.Provenance.Candidate
import JsxOrigin.Provenance.Chain
import JsxOrigin.Provenance.Origin
import JsxOrigin.Provenance.Plan
import JsxOrigin.Provenance.Trace
import JsxOrigin.Rendering.Analysis
import JsxOrigin.Rendering.Element
import JsxOrigin.Rendering.Report
import JsxOrigin.Settings.Basic
import JsxOrigin.Settings.Environment
import JsxOrigin.Settings.PathMapping
import JsxOrigin.Settings.TolerantJson
import JsxOrigin.Storage.FileSystem
import JsxOrigin.Storage.GraphStore
import JsxOrigin.Storage.KeptGraph
import JsxOrigin.Storage.Mark
import JsxOrigin.Storage.OpenStore
import JsxOrigin.Storage.Path
import JsxOrigin.Storage.TextualPath
import JsxOrigin.Syntax.Codec
import JsxOrigin.Syntax.Kind
import JsxOrigin.Syntax.Literal
import JsxOrigin.Syntax.Preorder
import JsxOrigin.Syntax.Source
import JsxOrigin.Syntax.Tree
import JsxOrigin.Table
import JsxOrigin.Text.Basic
import JsxOrigin.Text.Blank
import JsxOrigin.Text.CodePoint
import JsxOrigin.Text.CodeSet
import JsxOrigin.Text.Digit
import JsxOrigin.Text.Lines
import JsxOrigin.Text.LowerCase
import JsxOrigin.Text.Printable
import JsxOrigin.Text.Quoted
import JsxOrigin.Text.Utf16
import JsxOrigin.Text.Utf8
