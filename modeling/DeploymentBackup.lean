import DeploymentBackup.Archive.Header
import DeploymentBackup.Archive.Reader
import DeploymentBackup.Archive.Writer
import DeploymentBackup.Artifact.Basic
import DeploymentBackup.Artifact.Fault
import DeploymentBackup.Cli.Arguments
import DeploymentBackup.Cli.Perform
import DeploymentBackup.Clock
import DeploymentBackup.Config.Basic
import DeploymentBackup.Config.Load
import DeploymentBackup.Config.Variable
import DeploymentBackup.Digest.Sha256
import DeploymentBackup.Digests.Archive
import DeploymentBackup.Digests.Basic
import DeploymentBackup.Digests.Fault
import DeploymentBackup.Digests.Listing
import DeploymentBackup.Disk.Basic
import DeploymentBackup.Disk.Change
import DeploymentBackup.Disk.Files
import DeploymentBackup.Disk.Resolve
import DeploymentBackup.Identifier
import DeploymentBackup.Instance.Act
import DeploymentBackup.Instance.Basic
import DeploymentBackup.Instance.Fault
import DeploymentBackup.Inventory.Basic
import DeploymentBackup.Inventory.Lookup
import DeploymentBackup.Main
import DeploymentBackup.Metadata.Basic
import DeploymentBackup.Metadata.Written
import DeploymentBackup.Phase.Basic
import DeploymentBackup.Phase.Errors
import DeploymentBackup.Phase.Sweep
import DeploymentBackup.Proofs.Archive.Cut
import DeploymentBackup.Proofs.Archive.Header
import DeploymentBackup.Proofs.Archive.Members
import DeploymentBackup.Proofs.Archive.Paths
import DeploymentBackup.Proofs.Archive.RoundTrip
import DeploymentBackup.Proofs.Artifact.Files
import DeploymentBackup.Proofs.Artifact.Journal
import DeploymentBackup.Proofs.Artifact.Separate
import DeploymentBackup.Proofs.Artifact.Validity
import DeploymentBackup.Proofs.Digests.Agreement
import DeploymentBackup.Proofs.Digests.Differences
import DeploymentBackup.Proofs.Digests.Listing
import DeploymentBackup.Proofs.Digests.Output
import DeploymentBackup.Proofs.Digests.Record
import DeploymentBackup.Proofs.Disk.Directory
import DeploymentBackup.Proofs.Disk.Replace
import DeploymentBackup.Proofs.Disk.Tree
import DeploymentBackup.Proofs.Identifier
import DeploymentBackup.Proofs.Inventory.Index
import DeploymentBackup.Proofs.Metadata.Written
import DeploymentBackup.Proofs.Remote.Commands
import DeploymentBackup.Proofs.Remote.Discovery
import DeploymentBackup.Proofs.Remote.Issued
import DeploymentBackup.Proofs.Remote.Jobs
import DeploymentBackup.Proofs.Remote.Lookup
import DeploymentBackup.Proofs.Remote.Scripts
import DeploymentBackup.Proofs.Remote.Storage
import DeploymentBackup.Proofs.Remote.Turns
import DeploymentBackup.Proofs.Shell.Reading
import DeploymentBackup.Proofs.Shell.Spelling
import DeploymentBackup.Proofs.Text.Lines
import DeploymentBackup.Proofs.Text.Lossy
import DeploymentBackup.Proofs.Text.Utf8
import DeploymentBackup.Proofs.Workflow.Calls
import DeploymentBackup.Proofs.Workflow.Compatible
import DeploymentBackup.Proofs.Workflow.Completion
import DeploymentBackup.Proofs.Workflow.Delivery
import DeploymentBackup.Proofs.Workflow.Difference
import DeploymentBackup.Proofs.Workflow.Equations
import DeploymentBackup.Proofs.Workflow.Faithful
import DeploymentBackup.Proofs.Workflow.Fleet
import DeploymentBackup.Proofs.Workflow.History
import DeploymentBackup.Proofs.Workflow.Independent
import DeploymentBackup.Proofs.Workflow.Inspection
import DeploymentBackup.Proofs.Workflow.Integrity
import DeploymentBackup.Proofs.Workflow.Linked
import DeploymentBackup.Proofs.Workflow.Phases
import DeploymentBackup.Proofs.Workflow.RoundTrip
import DeploymentBackup.Proofs.Workflow.Runs
import DeploymentBackup.Proofs.Workflow.Shared
import DeploymentBackup.Proofs.Workflow.Transfer
import DeploymentBackup.Proofs.Workflow.Verified
import DeploymentBackup.Proofs.Workflow.Visits
import DeploymentBackup.Proofs.Yaml.DoubleQuoted
import DeploymentBackup.Proofs.Yaml.Gap
import DeploymentBackup.Proofs.Yaml.LayoutNode
import DeploymentBackup.Proofs.Yaml.LayoutTokens
import DeploymentBackup.Proofs.Yaml.LiteralScalar
import DeploymentBackup.Proofs.Yaml.PlainScalar
import DeploymentBackup.Proofs.Yaml.Reads
import DeploymentBackup.Proofs.Yaml.ScalarToken
import DeploymentBackup.Proofs.Yaml.SingleQuoted
import DeploymentBackup.Rehearsal.Cast
import DeploymentBackup.Rehearsal.Script
import DeploymentBackup.Rehearsal.StandIn
import DeploymentBackup.Remote.Command
import DeploymentBackup.Remote.Host
import DeploymentBackup.Remote.Job
import DeploymentBackup.Remote.Layout
import DeploymentBackup.Remote.Runner
import DeploymentBackup.Remote.Ssh
import DeploymentBackup.Shell.Arithmetic
import DeploymentBackup.Shell.Command
import DeploymentBackup.Shell.Escape
import DeploymentBackup.Shell.Expansion
import DeploymentBackup.Shell.Pattern
import DeploymentBackup.Shell.Program
import DeploymentBackup.Shell.Quote
import DeploymentBackup.Shell.Run
import DeploymentBackup.Shell.Session
import DeploymentBackup.Shell.Utility
import DeploymentBackup.Shell.Word
import DeploymentBackup.Stream
import DeploymentBackup.Text.Ascending
import DeploymentBackup.Text.Blank
import DeploymentBackup.Text.Hex
import DeploymentBackup.Text.Invisible
import DeploymentBackup.Text.Lines
import DeploymentBackup.Text.Literal
import DeploymentBackup.Text.Utf8
import DeploymentBackup.Toml.Quoted
import DeploymentBackup.Toml.Read
import DeploymentBackup.Toml.Scalar
import DeploymentBackup.Toml.Table
import DeploymentBackup.Workflow.Backup
import DeploymentBackup.Workflow.Basic
import DeploymentBackup.Workflow.Restore
import DeploymentBackup.Yaml.Character
import DeploymentBackup.Yaml.Compose
import DeploymentBackup.Yaml.Meaning
import DeploymentBackup.Yaml.Node
import DeploymentBackup.Yaml.Print
import DeploymentBackup.Yaml.Property
import DeploymentBackup.Yaml.Read
import DeploymentBackup.Yaml.Scalar.Block
import DeploymentBackup.Yaml.Scalar.Plain
import DeploymentBackup.Yaml.Scalar.Quoted
import DeploymentBackup.Yaml.Token
import DeploymentBackup.Yaml.Tokens
