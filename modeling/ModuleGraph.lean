import ModuleGraph.Artifact.Basic
import ModuleGraph.Artifact.Http
import ModuleGraph.Artifact.Manifest
import ModuleGraph.Command.Arguments
import ModuleGraph.Command.Footprint
import ModuleGraph.Command.Report
import ModuleGraph.Command.Run
import ModuleGraph.Config.Basic
import ModuleGraph.Config.File
import ModuleGraph.Config.Routes
import ModuleGraph.Diagnostic
import ModuleGraph.Digest.Blake3
import ModuleGraph.Digest.Sha256
import ModuleGraph.Digest.Words
import ModuleGraph.Disk.Basic
import ModuleGraph.Disk.Change
import ModuleGraph.Disk.Path
import ModuleGraph.Disk.Reading
import ModuleGraph.Failure
import ModuleGraph.Graph.Basic
import ModuleGraph.Graph.ComponentSearch
import ModuleGraph.Graph.Cycle
import ModuleGraph.Graph.Discovery
import ModuleGraph.Json.Basic
import ModuleGraph.Json.Reader
import ModuleGraph.Linking.Build
import ModuleGraph.Linking.RestoreQueue
import ModuleGraph.Linking.RestoreWorker
import ModuleGraph.Linking.Server
import ModuleGraph.Main
import ModuleGraph.Proofs.Addresses
import ModuleGraph.Proofs.Agreement
import ModuleGraph.Proofs.Asking
import ModuleGraph.Proofs.Attempts
import ModuleGraph.Proofs.Batches
import ModuleGraph.Proofs.BreakingCycles
import ModuleGraph.Proofs.Budget
import ModuleGraph.Proofs.Building
import ModuleGraph.Proofs.Coalescing
import ModuleGraph.Proofs.Completeness
import ModuleGraph.Proofs.Components
import ModuleGraph.Proofs.Containment
import ModuleGraph.Proofs.CycleLocality
import ModuleGraph.Proofs.CycleReport
import ModuleGraph.Proofs.CycleRuns
import ModuleGraph.Proofs.CycleSearch
import ModuleGraph.Proofs.Dependable
import ModuleGraph.Proofs.Dispatching
import ModuleGraph.Proofs.Draining
import ModuleGraph.Proofs.Echoes
import ModuleGraph.Proofs.EditorPositions
import ModuleGraph.Proofs.Fetching
import ModuleGraph.Proofs.FilePaths
import ModuleGraph.Proofs.FileWalks
import ModuleGraph.Proofs.FirstOccurrences
import ModuleGraph.Proofs.Freshness
import ModuleGraph.Proofs.Gains
import ModuleGraph.Proofs.Ghosts
import ModuleGraph.Proofs.Handlers
import ModuleGraph.Proofs.InFlight
import ModuleGraph.Proofs.Interrupted
import ModuleGraph.Proofs.Ipv6Text
import ModuleGraph.Proofs.Isolation
import ModuleGraph.Proofs.Journal
import ModuleGraph.Proofs.JsonText
import ModuleGraph.Proofs.KeptArtifacts
import ModuleGraph.Proofs.LeastCycles
import ModuleGraph.Proofs.ManifestRequests
import ModuleGraph.Proofs.Memo
import ModuleGraph.Proofs.NotCyclic
import ModuleGraph.Proofs.OncePerPass
import ModuleGraph.Proofs.OneNode
import ModuleGraph.Proofs.OpenDocuments
import ModuleGraph.Proofs.Operations
import ModuleGraph.Proofs.Origins
import ModuleGraph.Proofs.Overtaking
import ModuleGraph.Proofs.Places
import ModuleGraph.Proofs.Pulling
import ModuleGraph.Proofs.Reached
import ModuleGraph.Proofs.ReadingBack
import ModuleGraph.Proofs.Readings
import ModuleGraph.Proofs.Rebuild
import ModuleGraph.Proofs.Recording
import ModuleGraph.Proofs.Remembering
import ModuleGraph.Proofs.Repeating
import ModuleGraph.Proofs.Reporting
import ModuleGraph.Proofs.Resolvable
import ModuleGraph.Proofs.RestoreCommand
import ModuleGraph.Proofs.Restoring
import ModuleGraph.Proofs.Rounds
import ModuleGraph.Proofs.Screen
import ModuleGraph.Proofs.ServerRuns
import ModuleGraph.Proofs.ServerSteps
import ModuleGraph.Proofs.SettledPaths
import ModuleGraph.Proofs.Settling
import ModuleGraph.Proofs.SharedFiles
import ModuleGraph.Proofs.Snapshot
import ModuleGraph.Proofs.Spans
import ModuleGraph.Proofs.StatementLines
import ModuleGraph.Proofs.StaticReader
import ModuleGraph.Proofs.Steadfast
import ModuleGraph.Proofs.Steady
import ModuleGraph.Proofs.Storing
import ModuleGraph.Proofs.Traversal
import ModuleGraph.Proofs.Verdict
import ModuleGraph.Proofs.Ways
import ModuleGraph.Proofs.WrittenSegments
import ModuleGraph.Reference.Basic
import ModuleGraph.Reference.Nuget
import ModuleGraph.Reference.Oci
import ModuleGraph.Registry.Basic
import ModuleGraph.Registry.Cache
import ModuleGraph.Registry.RestoreError
import ModuleGraph.Routing.Ledger
import ModuleGraph.Routing.Routes
import ModuleGraph.Routing.Site
import ModuleGraph.Source.File
import ModuleGraph.Source.FileMap
import ModuleGraph.Source.Literal
import ModuleGraph.Source.Position
import ModuleGraph.Source.Reading
import ModuleGraph.Source.Scan
import ModuleGraph.Source.Span
import ModuleGraph.Text.Alphanumeric
import ModuleGraph.Text.Blank
import ModuleGraph.Text.Hex
import ModuleGraph.Text.Utf8
import ModuleGraph.Toml.Basic
import ModuleGraph.Toml.DateTime
import ModuleGraph.Toml.Number
import ModuleGraph.Toml.Quoted
import ModuleGraph.Toml.Reader
import ModuleGraph.Toml.Table
import ModuleGraph.Url.Basic
import ModuleGraph.Url.Domain
import ModuleGraph.Url.Error
import ModuleGraph.Url.File
import ModuleGraph.Url.Host
import ModuleGraph.Url.Ipv4
import ModuleGraph.Url.Ipv6
import ModuleGraph.Url.Parse
import ModuleGraph.Url.Parts
import ModuleGraph.Url.Percent
import ModuleGraph.Url.Punycode
import ModuleGraph.Url.Segments
