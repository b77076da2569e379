import ImportAtlas.Main
import ImportAtlas.Number.Literal
import ImportAtlas.Tree.Walk
import ImportAtlas.Proofs.Consumption
import ImportAtlas.Proofs.Outcome
import ImportAtlas.Proofs.Spelling
import ImportAtlas.Proofs.ModuleSpelling
import ImportAtlas.Proofs.Tiling
import ImportAtlas.Proofs.Layout
import ImportAtlas.Proofs.Nesting
import ImportAtlas.Proofs.Recovery
import ImportAtlas.Proofs.Extent
import ImportAtlas.Proofs.Writing
import ImportAtlas.Proofs.Literals
import ImportAtlas.Proofs.Grammar
import ImportAtlas.Proofs.ImportClause
import ImportAtlas.Proofs.RoundTrip
import ImportAtlas.Proofs.Numbering
import ImportAtlas.Proofs.Lossless
import ImportAtlas.Proofs.Coordinates
import ImportAtlas.Proofs.Leaves
import ImportAtlas.Proofs.Brackets
import ImportAtlas.Proofs.ParameterList
import ImportAtlas.Proofs.Building
import ImportAtlas.Proofs.DepthFirst
import ImportAtlas.Proofs.Reachability
import ImportAtlas.Proofs.Truncation
import ImportAtlas.Proofs.Discovery
import ImportAtlas.Proofs.Indexed
import ImportAtlas.Proofs.IndexedExpression
import ImportAtlas.Proofs.IndexedModule
import ImportAtlas.Proofs.CycleOrder
import ImportAtlas.Proofs.Components
import ImportAtlas.Proofs.Cycles
import ImportAtlas.Proofs.Coverage
import ImportAtlas.Proofs.ScanOrder
import ImportAtlas.Proofs.Locality
import ImportAtlas.Proofs.Trivia
import ImportAtlas.Proofs.RouteObjects
import ImportAtlas.Proofs.Aliases
import ImportAtlas.Proofs.Resolution
import ImportAtlas.Proofs.Lines
import ImportAtlas.Proofs.Relexing
import ImportAtlas.Proofs.Registry
import ImportAtlas.Proofs.Unquoting
import ImportAtlas.Proofs.CyclePath
import ImportAtlas.Proofs.RouteBindings
import ImportAtlas.Proofs.LexicalPaths
import ImportAtlas.Proofs.Locating
import ImportAtlas.Proofs.FirstCandidate
import ImportAtlas.Proofs.ImportTables
import ImportAtlas.Proofs.ScannedFiles
import ImportAtlas.Proofs.Visits
import ImportAtlas.Proofs.ReportTables
import ImportAtlas.Proofs.Decoding
import ImportAtlas.Proofs.RawPaths
import ImportAtlas.Proofs.DisplayedPaths
import ImportAtlas.Proofs.NumberValues
