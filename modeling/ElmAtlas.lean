import ElmAtlas.BackgroundTask
import ElmAtlas.Command
import ElmAtlas.CommandLine.Arguments
import ElmAtlas.CommandLine.Host
import ElmAtlas.CommandLine.Listing
import ElmAtlas.CommandLine.Run
import ElmAtlas.Config
import ElmAtlas.Constraint
import ElmAtlas.Dependency
import ElmAtlas.Diagnostic
import ElmAtlas.Disk
import ElmAtlas.Double
import ElmAtlas.Environment
import ElmAtlas.Failure
import ElmAtlas.Json.Decode
import ElmAtlas.Json.Document
import ElmAtlas.Json.Mismatch
import ElmAtlas.Json.Number
import ElmAtlas.Json.Printer
import ElmAtlas.Json.Reader
import ElmAtlas.Machine.Texts
import ElmAtlas.Main
import ElmAtlas.Manifest.Load
import ElmAtlas.Manifest.Shape
import ElmAtlas.NameMap
import ElmAtlas.PackageCache
import ElmAtlas.Path.Basic
import ElmAtlas.Path.Normal
import ElmAtlas.Path.Relative
import ElmAtlas.Path.Search
import ElmAtlas.Project
import ElmAtlas.Proofs.CommandLine.SavedState
import ElmAtlas.Proofs.Config
import ElmAtlas.Proofs.Constraint
import ElmAtlas.Proofs.Constraint.Least
import ElmAtlas.Proofs.Disk
import ElmAtlas.Proofs.Disk.Directories
import ElmAtlas.Proofs.Disk.Listing
import ElmAtlas.Proofs.Disk.Tree
import ElmAtlas.Proofs.Disk.Writing
import ElmAtlas.Proofs.Json.Decode
import ElmAtlas.Proofs.Json.Grammar
import ElmAtlas.Proofs.Manifest.Companions
import ElmAtlas.Proofs.Manifest.Dependencies
import ElmAtlas.Proofs.Manifest.Description
import ElmAtlas.Proofs.Manifest.Identity
import ElmAtlas.Proofs.Manifest.Records
import ElmAtlas.Proofs.Manifest.Repository
import ElmAtlas.Proofs.Manifest.WellFormed
import ElmAtlas.Proofs.Outcome
import ElmAtlas.Proofs.PackageCache
import ElmAtlas.Proofs.Path.Composition
import ElmAtlas.Proofs.Path.NormalForm
import ElmAtlas.Proofs.Path.Order
import ElmAtlas.Proofs.Path.Place
import ElmAtlas.Proofs.Sidecar
import ElmAtlas.Proofs.State.Codec
import ElmAtlas.Proofs.Text.Octets
import ElmAtlas.Proofs.Text.Pieces
import ElmAtlas.Proofs.Text.Template
import ElmAtlas.Proofs.Toml.Document
import ElmAtlas.Proofs.Version
import ElmAtlas.Proofs.Version.Order
import ElmAtlas.Proofs.Workspace.AttachedManifests
import ElmAtlas.Proofs.Workspace.Client
import ElmAtlas.Proofs.Workspace.DirectoryAttachment
import ElmAtlas.Proofs.Workspace.Discovery
import ElmAtlas.Proofs.Workspace.EntryAttachment
import ElmAtlas.Proofs.Workspace.Journal
import ElmAtlas.Proofs.Workspace.Ledger
import ElmAtlas.Proofs.Workspace.ManifestChanges
import ElmAtlas.Proofs.Workspace.RefusedSpawn
import ElmAtlas.Proofs.Workspace.Registry
import ElmAtlas.Proofs.Workspace.Restoration
import ElmAtlas.Proofs.Workspace.Run
import ElmAtlas.Proofs.Workspace.SequentialOrder
import ElmAtlas.Proofs.Workspace.SettingsOrder
import ElmAtlas.Proofs.Workspace.Supersession
import ElmAtlas.Proofs.Workspace.Walk
import ElmAtlas.Review
import ElmAtlas.SemanticVersion
import ElmAtlas.Settings
import ElmAtlas.Shell.Arithmetic
import ElmAtlas.Shell.Builtin.Control
import ElmAtlas.Shell.Builtin.Options
import ElmAtlas.Shell.Builtin.Output
import ElmAtlas.Shell.Builtin.Variables
import ElmAtlas.Shell.Condition
import ElmAtlas.Shell.Device
import ElmAtlas.Shell.Evaluation
import ElmAtlas.Shell.Evaluation.Builtin
import ElmAtlas.Shell.Evaluation.Command
import ElmAtlas.Shell.Evaluation.Script
import ElmAtlas.Shell.Evaluation.Start
import ElmAtlas.Shell.Expansion
import ElmAtlas.Shell.Fields
import ElmAtlas.Shell.Form
import ElmAtlas.Shell.Form.Reader
import ElmAtlas.Shell.Launch
import ElmAtlas.Shell.Numeral
import ElmAtlas.Shell.Pattern
import ElmAtlas.Shell.Printing
import ElmAtlas.Shell.Program
import ElmAtlas.Shell.Redirect
import ElmAtlas.Shell.Session
import ElmAtlas.Shell.Source
import ElmAtlas.Shell.Stream
import ElmAtlas.Shell.Utility
import ElmAtlas.Shell.Word
import ElmAtlas.Shell.Word.Reader
import ElmAtlas.Sidecar
import ElmAtlas.State
import ElmAtlas.Text.Blank
import ElmAtlas.Text.Decimal
import ElmAtlas.Text.Hidden
import ElmAtlas.Text.Octets
import ElmAtlas.Text.Quoted
import ElmAtlas.Text.Template
import ElmAtlas.Toml.Outline
import ElmAtlas.Toml.Quotation
import ElmAtlas.Toml.Reader
import ElmAtlas.Toml.Scalar
import ElmAtlas.Toml.Value
import ElmAtlas.Toolchain
import ElmAtlas.Version
import ElmAtlas.Workspace.Discovery
import ElmAtlas.Workspace.Ledger
import ElmAtlas.Workspace.Operations
import ElmAtlas.Workspace.Registry
import ElmAtlas.Proofs.Manifest.Lock
import ElmAtlas.Proofs.Manifest.Pinning
import ElmAtlas.Proofs.Workspace.Candidates
import ElmAtlas.Proofs.Manifest.DeclaredDirectories
import ElmAtlas.Proofs.Workspace.Ownership
import ElmAtlas.Proofs.Path.Slashes
import ElmAtlas.Proofs.State.Canonical
import ElmAtlas.Proofs.Workspace.ToolPrecedence
import ElmAtlas.Proofs.Review.Verdict
import ElmAtlas.Proofs.Review.Order
