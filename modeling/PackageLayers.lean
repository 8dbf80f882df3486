import PackageLayers.Calendar
import PackageLayers.Dict
import PackageLayers.Digest.Sha256
import PackageLayers.Failure
import PackageLayers.Files.Basic
import PackageLayers.Files.Change
import PackageLayers.Files.Resolve
import PackageLayers.Files.Walk
import PackageLayers.Graph.Basic
import PackageLayers.Graph.Cache
import PackageLayers.Graph.Document
import PackageLayers.Graph.Level
import PackageLayers.Graph.Platform
import PackageLayers.Graph.Policy
import PackageLayers.Graph.Search
import PackageLayers.Json.Basic
import PackageLayers.Json.Number
import PackageLayers.Json.Printer
import PackageLayers.Json.Reader
import PackageLayers.Json.Record
import PackageLayers.Manifest.Basic
import PackageLayers.Manifest.Document
import PackageLayers.Manifest.Dump
import PackageLayers.Manifest.Edit
import PackageLayers.Manifest.Insertion
import PackageLayers.Manifest.Outcome
import PackageLayers.Manifest.Outline
import PackageLayers.Manifest.Patch
import PackageLayers.Manifest.Provenance
import PackageLayers.Manifest.Reading
import PackageLayers.Manifest.Strategy
import PackageLayers.Number.Decimal
import PackageLayers.Number.Double
import PackageLayers.Path.Basic
import PackageLayers.Path.Clean
import PackageLayers.Path.Key
import PackageLayers.Path.Relative
import PackageLayers.Program.Arithmetic
import PackageLayers.Program.Builtin
import PackageLayers.Program.Command
import PackageLayers.Program.Condition
import PackageLayers.Program.Distribution
import PackageLayers.Program.Evaluation
import PackageLayers.Program.Field
import PackageLayers.Program.Filter.Arguments
import PackageLayers.Program.Filter.Basic
import PackageLayers.Program.Filter.Characters
import PackageLayers.Program.Filter.Columns
import PackageLayers.Program.Filter.EditScript
import PackageLayers.Program.Filter.Grep
import PackageLayers.Program.Filter.Lines
import PackageLayers.Program.Filter.Order
import PackageLayers.Program.Filter.Sed
import PackageLayers.Program.Filtering
import PackageLayers.Program.Interpreter
import PackageLayers.Program.Launch
import PackageLayers.Program.Pattern
import PackageLayers.Program.Printf
import PackageLayers.Program.Process
import PackageLayers.Program.Regex
import PackageLayers.Program.Run
import PackageLayers.Program.Script
import PackageLayers.Program.Shell
import PackageLayers.Program.Token
import PackageLayers.Program.Utility
import PackageLayers.Program.Utility.Alteration
import PackageLayers.Program.Utility.Listing
import PackageLayers.Program.Utility.Search
import PackageLayers.Project.Basic
import PackageLayers.Project.Discovery
import PackageLayers.Project.Document
import PackageLayers.Project.Edges
import PackageLayers.Project.Lookup
import PackageLayers.Project.Merge
import PackageLayers.Project.Timestamp
import PackageLayers.Project.Update
import PackageLayers.Proofs.Files.Cleaning
import PackageLayers.Proofs.Files.Directions
import PackageLayers.Proofs.Files.Overwriting
import PackageLayers.Proofs.Files.Places
import PackageLayers.Proofs.Files.Storing
import PackageLayers.Proofs.Files.Walks
import PackageLayers.Proofs.Graph.AllowedEdges
import PackageLayers.Proofs.Graph.Aside
import PackageLayers.Proofs.Graph.Documents
import PackageLayers.Proofs.Graph.Growing
import PackageLayers.Proofs.Graph.Heights
import PackageLayers.Proofs.Graph.Layers
import PackageLayers.Proofs.Graph.OneManifest
import PackageLayers.Proofs.Graph.Searches
import PackageLayers.Proofs.Graph.Spellings
import PackageLayers.Proofs.Graph.Topology
import PackageLayers.Proofs.Graph.Transparency
import PackageLayers.Proofs.Graph.Verdicts
import PackageLayers.Proofs.Graph.Ways
import PackageLayers.Proofs.Json.Documents
import PackageLayers.Proofs.Json.Tokens
import PackageLayers.Proofs.Manifest.ArgumentPlaces
import PackageLayers.Proofs.Manifest.Arguments
import PackageLayers.Proofs.Manifest.Arrays
import PackageLayers.Proofs.Manifest.Blocks
import PackageLayers.Proofs.Manifest.CallTokens
import PackageLayers.Proofs.Manifest.Calls
import PackageLayers.Proofs.Manifest.Canonical
import PackageLayers.Proofs.Manifest.Commas
import PackageLayers.Proofs.Manifest.Comments
import PackageLayers.Proofs.Manifest.Containers
import PackageLayers.Proofs.Manifest.Declarations
import PackageLayers.Proofs.Manifest.Dots
import PackageLayers.Proofs.Manifest.Dumps
import PackageLayers.Proofs.Manifest.Entries
import PackageLayers.Proofs.Manifest.Findings
import PackageLayers.Proofs.Manifest.FirstDeclaration
import PackageLayers.Proofs.Manifest.FirstDependency
import PackageLayers.Proofs.Manifest.Fragments
import PackageLayers.Proofs.Manifest.Growth
import PackageLayers.Proofs.Manifest.Lengthening
import PackageLayers.Proofs.Manifest.Listings
import PackageLayers.Proofs.Manifest.LocalPatch
import PackageLayers.Proofs.Manifest.LoneCommas
import PackageLayers.Proofs.Manifest.MemberCalls
import PackageLayers.Proofs.Manifest.NewArgument
import PackageLayers.Proofs.Manifest.Outlines
import PackageLayers.Proofs.Manifest.PackageArray
import PackageLayers.Proofs.Manifest.Pieces
import PackageLayers.Proofs.Manifest.Placement
import PackageLayers.Proofs.Manifest.Printing
import PackageLayers.Proofs.Manifest.ProductPatch
import PackageLayers.Proofs.Manifest.Quotes
import PackageLayers.Proofs.Manifest.Readback
import PackageLayers.Proofs.Manifest.Roundtrip
import PackageLayers.Proofs.Manifest.Sites
import PackageLayers.Proofs.Manifest.Slots
import PackageLayers.Proofs.Manifest.Styles
import PackageLayers.Proofs.Manifest.Targets
import PackageLayers.Proofs.Manifest.Tokens
import PackageLayers.Proofs.Project.Additions
import PackageLayers.Proofs.Project.Connections
import PackageLayers.Proofs.Project.Declared
import PackageLayers.Proofs.Project.Documents
import PackageLayers.Proofs.Project.Findings
import PackageLayers.Proofs.Project.Histories
import PackageLayers.Proofs.Project.Merging
import PackageLayers.Proofs.Project.Moments
import PackageLayers.Proofs.Project.Repetition
import PackageLayers.Proofs.Project.Rescans
import PackageLayers.Proofs.Project.Rivals
import PackageLayers.Proofs.Resolution.AcyclicRuns
import PackageLayers.Proofs.Resolution.Calls
import PackageLayers.Proofs.Resolution.Foresight
import PackageLayers.Proofs.Resolution.Frame
import PackageLayers.Proofs.Resolution.Repeated
import PackageLayers.Proofs.Resolution.Shortcut
import PackageLayers.Proofs.Source.Boundaries
import PackageLayers.Proofs.Source.Brackets
import PackageLayers.Proofs.Source.Cells
import PackageLayers.Proofs.Source.Classes
import PackageLayers.Proofs.Source.Elements
import PackageLayers.Proofs.Source.Homes
import PackageLayers.Proofs.Source.Insertion
import PackageLayers.Proofs.Source.Items
import PackageLayers.Proofs.Source.Labels
import PackageLayers.Proofs.Source.Literals
import PackageLayers.Proofs.Source.Locality
import PackageLayers.Proofs.Source.Nesting
import PackageLayers.Proofs.Source.Partners
import PackageLayers.Proofs.Source.Places
import PackageLayers.Proofs.Source.Reading
import PackageLayers.Proofs.Source.Seam
import PackageLayers.Proofs.Source.TopLevel
import PackageLayers.Proofs.Source.Words
import PackageLayers.Proofs.Tables
import PackageLayers.Resolution.Judgement
import PackageLayers.Resolution.Service
import PackageLayers.Settings.Basic
import PackageLayers.Settings.Document
import PackageLayers.Sorting
import PackageLayers.Source.Basic
import PackageLayers.Source.Bracket
import PackageLayers.Source.Lexeme
import PackageLayers.Source.Literal
import PackageLayers.Source.Search
import PackageLayers.Text.Fold
import PackageLayers.Text.Hex
import PackageLayers.Text.Octets
import PackageLayers.Toml.Basic
import PackageLayers.Toml.Reader
import PackageLayers.Toml.Text
import PackageLayers.Toml.Word
import PackageLayers.Version
import PackageLayers.World
