import RouteTree.CommandLine
import RouteTree.CompileError
import RouteTree.Failure
import RouteTree.FilePath
import RouteTree.Group
import RouteTree.HexDigit
import RouteTree.Hooks
import RouteTree.Host
import RouteTree.Json
import RouteTree.Json.Printer
import RouteTree.Json.Project
import RouteTree.Json.Reader
import RouteTree.Json.Record
import RouteTree.Json.Resolution
import RouteTree.Json.Route
import RouteTree.Json.Token
import RouteTree.Json.Tree
import RouteTree.NamedList
import RouteTree.NumberLiteral
import RouteTree.Path
import RouteTree.Pattern
import RouteTree.Project
import RouteTree.Project.Build
import RouteTree.Project.Inspection
import RouteTree.Registry
import RouteTree.Registry.Address
import RouteTree.Registry.Node
import RouteTree.Resolution
import RouteTree.Route
import RouteTree.Scope
import RouteTree.Terminal
import RouteTree.Toml.Document
import RouteTree.Toml.Literal
import RouteTree.Toml.Reader
import RouteTree.Toml.Text
import RouteTree.Tree
import RouteTree.Tree.Construction
import RouteTree.Tree.Resolve
import RouteTree.Workspace
import RouteTree.Main
import RouteTree.Proofs.KeyAddress
import RouteTree.Proofs.Table
import RouteTree.Proofs.Matching
import RouteTree.Proofs.Search
import RouteTree.Proofs.Lowering
import RouteTree.Proofs.Selection
import RouteTree.Proofs.Binding
import RouteTree.Proofs.Interpretation
import RouteTree.Proofs.Fitting
import RouteTree.Proofs.Extraction
import RouteTree.Proofs.EmptyComponent
import RouteTree.Proofs.Collision
import RouteTree.Proofs.Arrival
import RouteTree.Proofs.Spelling
import RouteTree.Proofs.History
import RouteTree.Proofs.Tidy
import RouteTree.Proofs.Layers
import RouteTree.Proofs.Interference
import RouteTree.Proofs.Joining
import RouteTree.Proofs.Reachability
import RouteTree.Proofs.Traversal
import RouteTree.Proofs.Growth
import RouteTree.Proofs.KeyGrammar
import RouteTree.Proofs.CompileFailure
import RouteTree.Proofs.Reordering
import RouteTree.Proofs.Scanning
import RouteTree.Proofs.Reading
import RouteTree.Proofs.Artifact
import RouteTree.Proofs.Places
import RouteTree.Proofs.Building
import RouteTree.Proofs.OutputDirectory
import RouteTree.Proofs.LoweringRules
import RouteTree.Proofs.PageLowering
import RouteTree.Proofs.BindingWays
import RouteTree.Proofs.Interchange
import RouteTree.Proofs.Journey
import RouteTree.Proofs.KeyAcceptance
import RouteTree.Proofs.NodeShape
import RouteTree.Proofs.Replaying
import RouteTree.Proofs.Rendering
