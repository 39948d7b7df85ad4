import SuiteGate.Cli.Arguments
import SuiteGate.Cli.Commands
import SuiteGate.Cli.Description
import SuiteGate.Cli.Failure
import SuiteGate.Cli.Options
import SuiteGate.Config.Basic
import SuiteGate.Config.Document
import SuiteGate.Config.Load
import SuiteGate.Config.Locate
import SuiteGate.Config.Printer
import SuiteGate.Config.Schema
import SuiteGate.Config.Settings
import SuiteGate.Developer.Programs
import SuiteGate.Disk.Basic
import SuiteGate.Disk.Copy
import SuiteGate.Disk.Node
import SuiteGate.Disk.Planting
import SuiteGate.Disk.Walk
import SuiteGate.Environment
import SuiteGate.Error
import SuiteGate.Files
import SuiteGate.Gate.Event
import SuiteGate.Gate.MarkerLog
import SuiteGate.Gate.Run
import SuiteGate.Gate.Selection
import SuiteGate.Gate.SuiteTasks
import SuiteGate.Gate.SummaryFormat
import SuiteGate.Gate.Tag
import SuiteGate.Glob.Pattern
import SuiteGate.Glob.Search
import SuiteGate.GraalVm.Checks
import SuiteGate.GraalVm.Launcher
import SuiteGate.GraalVm.Samples
import SuiteGate.Host.Runner
import SuiteGate.Host.Session
import SuiteGate.Host.Utilities
import SuiteGate.Imports.Entry
import SuiteGate.Imports.Request
import SuiteGate.Imports.Search
import SuiteGate.Imports.Update
import SuiteGate.Invocation
import SuiteGate.IoError
import SuiteGate.Json.Access
import SuiteGate.Json.Parser
import SuiteGate.Json.Value
import SuiteGate.Main
import SuiteGate.Native.Capi
import SuiteGate.OsError
import SuiteGate.Path
import SuiteGate.Python.Arguments
import SuiteGate.Python.Run
import SuiteGate.Scripted.Runner
import SuiteGate.Shell.Arithmetic
import SuiteGate.Shell.Builtins
import SuiteGate.Shell.Condition
import SuiteGate.Shell.Parser
import SuiteGate.Shell.Pattern
import SuiteGate.Shell.Printing
import SuiteGate.Shell.Run
import SuiteGate.Shell.Session
import SuiteGate.Shell.Syntax
import SuiteGate.Shell.Words
import SuiteGate.Staleness
import SuiteGate.Style.Checks
import SuiteGate.Style.Copyrights
import SuiteGate.Suite.Basic
import SuiteGate.Suite.Coverage
import SuiteGate.Suite.Deployment
import SuiteGate.Tests.Discovery
import SuiteGate.Tests.Runs
import SuiteGate.Text.Blank
import SuiteGate.Text.CharClass
import SuiteGate.Text.Lines
import SuiteGate.Text.Quoted
import SuiteGate.Text.Seconds
import SuiteGate.Text.Utf8
import SuiteGate.Toml.Fault
import SuiteGate.Toml.Parser
import SuiteGate.Toml.Value
import SuiteGate.Tools.BuildTool
import SuiteGate.Tools.Repository
import SuiteGate.Vendored.Listing
import SuiteGate.Vendored.Refresh
import SuiteGate.Watch.Build
import SuiteGate.Watch.Debounce
import SuiteGate.Watch.Filter
import SuiteGate.Watch.Mode
import SuiteGate.Word64
import SuiteGate.World
import SuiteGate.Yaml.Cursor
import SuiteGate.Yaml.Parser
import SuiteGate.Yaml.Scalar
import SuiteGate.Yaml.Token
import SuiteGate.Proofs.Cli.ExitCodes
import SuiteGate.Proofs.Config.Loading
import SuiteGate.Proofs.Environment.Scopes
import SuiteGate.Proofs.Environment.Tools
import SuiteGate.Proofs.Gate.Environments
import SuiteGate.Proofs.Gate.Markers
import SuiteGate.Proofs.Gate.Runs
import SuiteGate.Proofs.Gate.TagLists
import SuiteGate.Proofs.Disk.Places
import SuiteGate.Proofs.Disk.Changes
import SuiteGate.Proofs.Disk.Separate
import SuiteGate.Proofs.Disk.Staging
import SuiteGate.Proofs.GraalVm.Relocation
import SuiteGate.Proofs.Host.Outputs
import SuiteGate.Proofs.Imports.DefaultUpdate
import SuiteGate.Proofs.Imports.Exchanges
import SuiteGate.Proofs.Imports.Frameworks
import SuiteGate.Proofs.Imports.Histories
import SuiteGate.Proofs.Imports.Orders
import SuiteGate.Proofs.Imports.Overlays
import SuiteGate.Proofs.Native.Environments
import SuiteGate.Proofs.Native.Failure
import SuiteGate.Proofs.Native.Headers
import SuiteGate.Proofs.Python.Arguments
import SuiteGate.Proofs.Scratch
import SuiteGate.Proofs.Watch.Locations
import SuiteGate.Proofs.Watch.Pacing
import SuiteGate.Proofs.Watch.Unobserved
import SuiteGate.Proofs.Tests.Discovering
import SuiteGate.Proofs.Vendored.Keeping
import SuiteGate.Proofs.Vendored.Copies
import SuiteGate.Proofs.Style.Copyrights
import SuiteGate.Proofs.Native.Dependencies
import SuiteGate.Proofs.Cleaning
import SuiteGate.Proofs.Disk.TreeCopies
import SuiteGate.Proofs.Disk.SortedWalks
import SuiteGate.Proofs.Environment.Chains
import SuiteGate.Proofs.Vendored.Originals
