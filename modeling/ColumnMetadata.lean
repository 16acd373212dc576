import ColumnMetadata.CommandLine.Arguments
import ColumnMetadata.CommandLine.Help
import ColumnMetadata.CommandLine.Program
import ColumnMetadata.CommandLine.Summary
import ColumnMetadata.Compiler.Basic
import ColumnMetadata.Compiler.Process
import ColumnMetadata.Definition.Block
import ColumnMetadata.Definition.Column
import ColumnMetadata.Definition.File
import ColumnMetadata.Definition.Filling
import ColumnMetadata.Definition.Metadata
import ColumnMetadata.Entries
import ColumnMetadata.Files.Path
import ColumnMetadata.Files.Tree
import ColumnMetadata.Json.Record
import ColumnMetadata.Json.Scan
import ColumnMetadata.Json.Tree
import ColumnMetadata.Literal.Parse
import ColumnMetadata.Literal.Scan
import ColumnMetadata.Literal.Token
import ColumnMetadata.Main
import ColumnMetadata.Number.Basic
import ColumnMetadata.Number.Binary64
import ColumnMetadata.Number.Reader
import ColumnMetadata.Number.Shortest
import ColumnMetadata.Project.Compiled
import ColumnMetadata.Project.Configuration
import ColumnMetadata.Project.Discovery
import ColumnMetadata.Project.Graph
import ColumnMetadata.Project.Order
import ColumnMetadata.Project.WorkflowSettings
import ColumnMetadata.Proofs.Basic
import ColumnMetadata.Proofs.Definition.Block
import ColumnMetadata.Proofs.Definition.Boundary
import ColumnMetadata.Proofs.Definition.Column
import ColumnMetadata.Proofs.Definition.Columns
import ColumnMetadata.Proofs.Definition.Comments
import ColumnMetadata.Proofs.Definition.Filling
import ColumnMetadata.Proofs.Definition.Meaning
import ColumnMetadata.Proofs.Definition.Metadata
import ColumnMetadata.Proofs.Definition.Opaque
import ColumnMetadata.Proofs.Definition.Rendering
import ColumnMetadata.Proofs.Definition.WriteBack
import ColumnMetadata.Proofs.Entries
import ColumnMetadata.Proofs.Files.Listing
import ColumnMetadata.Proofs.Files.Outline
import ColumnMetadata.Proofs.Files.Path
import ColumnMetadata.Proofs.Files.Tree
import ColumnMetadata.Proofs.Literal.Braces
import ColumnMetadata.Proofs.Literal.Grammar
import ColumnMetadata.Proofs.Literal.Numbers
import ColumnMetadata.Proofs.Literal.Printed
import ColumnMetadata.Proofs.Literal.Reading
import ColumnMetadata.Proofs.Literal.Scanning
import ColumnMetadata.Proofs.Literal.Shifting
import ColumnMetadata.Proofs.Number.Acceptance
import ColumnMetadata.Proofs.Number.Integers
import ColumnMetadata.Proofs.Number.Legible
import ColumnMetadata.Proofs.Number.Parts
import ColumnMetadata.Proofs.Number.Range
import ColumnMetadata.Proofs.Number.Rounding
import ColumnMetadata.Proofs.Number.Shortest
import ColumnMetadata.Proofs.Project.Actions
import ColumnMetadata.Proofs.Project.Cycles
import ColumnMetadata.Proofs.Project.Discovery
import ColumnMetadata.Proofs.Project.Edges
import ColumnMetadata.Proofs.Project.Graph
import ColumnMetadata.Proofs.Project.Mapping
import ColumnMetadata.Proofs.Project.Order
import ColumnMetadata.Proofs.Project.Requests
import ColumnMetadata.Proofs.Reconciliation.Accounting
import ColumnMetadata.Proofs.Reconciliation.Completed
import ColumnMetadata.Proofs.Reconciliation.Completion
import ColumnMetadata.Proofs.Reconciliation.Disk
import ColumnMetadata.Proofs.Reconciliation.Frame
import ColumnMetadata.Proofs.Reconciliation.Isolation
import ColumnMetadata.Proofs.Reconciliation.Listing
import ColumnMetadata.Proofs.Reconciliation.Merging
import ColumnMetadata.Proofs.Reconciliation.OneByOne
import ColumnMetadata.Proofs.Reconciliation.Plan
import ColumnMetadata.Proofs.Reconciliation.Rereading
import ColumnMetadata.Proofs.Reconciliation.SecondRun
import ColumnMetadata.Proofs.Reconciliation.Separate
import ColumnMetadata.Proofs.Reconciliation.Solution
import ColumnMetadata.Proofs.Value.Numbers
import ColumnMetadata.Proofs.Value.Shape
import ColumnMetadata.Reconciliation.Basic
import ColumnMetadata.Reconciliation.Listing
import ColumnMetadata.Reconciliation.Loading
import ColumnMetadata.Reconciliation.Run
import ColumnMetadata.Report.Basic
import ColumnMetadata.Report.Json
import ColumnMetadata.Shell.Script
import ColumnMetadata.Shell.Session
import ColumnMetadata.Text.Blank
import ColumnMetadata.Text.Bytes
import ColumnMetadata.Text.CodePoints
import ColumnMetadata.Text.Letters
import ColumnMetadata.Text.Quoted
import ColumnMetadata.Text.Search
import ColumnMetadata.Text.Utf8
import ColumnMetadata.Toml.Reader
import ColumnMetadata.Toml.Scalar
import ColumnMetadata.Toml.Table
import ColumnMetadata.Value.Basic
import ColumnMetadata.Value.Printer
import ColumnMetadata.Warehouse.Rows
import ColumnMetadata.Warehouse.Simulated
import ColumnMetadata.Warehouse.Table
import ColumnMetadata.Yaml.Node
import ColumnMetadata.Yaml.Scan
import ColumnMetadata.Yaml.Token
import ColumnMetadata.Proofs.Definition.Precedence
import ColumnMetadata.Proofs.Definition.Permuting
import ColumnMetadata.Proofs.Reconciliation.Fetching
import ColumnMetadata.Proofs.Reconciliation.Reordering
import ColumnMetadata.Proofs.Reconciliation.MissingBlocks
import ColumnMetadata.Proofs.Project.Loads
import ColumnMetadata.Proofs.Project.Resolution
import ColumnMetadata.Proofs.Json.Scanning
import ColumnMetadata.Proofs.Json.Literals
import ColumnMetadata.Proofs.Definition.Entry
import ColumnMetadata.Proofs.Definition.Normalizing
import ColumnMetadata.Proofs.Text.ByteOrder
import ColumnMetadata.Proofs.Files.Sorted
import ColumnMetadata.Proofs.Files.Components
import ColumnMetadata.Proofs.Files.Following
import ColumnMetadata.Proofs.Project.Walking
import ColumnMetadata.Proofs.Project.Spelling
import ColumnMetadata.Proofs.Project.Ready
import ColumnMetadata.Proofs.Text.Splitting
import ColumnMetadata.Proofs.Warehouse.Rows
import ColumnMetadata.Proofs.Literal.Spelling
import ColumnMetadata.Proofs.Report.RoundTrip
import ColumnMetadata.Proofs.Definition.Ordering
import ColumnMetadata.Proofs.Definition.Changes
import ColumnMetadata.Proofs.Definition.Operations
import ColumnMetadata.Proofs.Literal.Tiling
import ColumnMetadata.Proofs.Definition.Steps
import ColumnMetadata.Proofs.Project.Counting
