import PartitionedScan.Main
import PartitionedScan.Csv
import PartitionedScan.CommandLine.Invocation
import PartitionedScan.Settings.File
import PartitionedScan.Toml.Basic
import PartitionedScan.Toml.Text
import PartitionedScan.Session
import PartitionedScan.Read.Task
import PartitionedScan.Engine.Basic
import PartitionedScan.Remote.Scripted
import PartitionedScan.Text.Hash
import PartitionedScan.Scan
import PartitionedScan.Operator.Evaluation
import PartitionedScan.Settings.Reading
import PartitionedScan.Settings.Connection
import PartitionedScan.Read.Planning
import PartitionedScan.Read.Row
import PartitionedScan.Read.Metrics
import PartitionedScan.Proofs.Scan
import PartitionedScan.Proofs.Read.ExactlyOnce
import PartitionedScan.Proofs.Words
import PartitionedScan.Proofs.Planning
import PartitionedScan.Proofs.Columns
import PartitionedScan.Proofs.Filter.WireForm
import PartitionedScan.Proofs.Filter.TimeOrder
import PartitionedScan.Proofs.Read.Streaming
import PartitionedScan.Proofs.Read.Opening
import PartitionedScan.Proofs.Filter.Pruning
import PartitionedScan.Proofs.Filter.Rollback
import PartitionedScan.Proofs.Filter.Placeholders
import PartitionedScan.Proofs.Read.Interleaving
import PartitionedScan.Proofs.Read.Isolation
import PartitionedScan.Proofs.Read.Retrying
import PartitionedScan.Proofs.Operator.Rereading
import PartitionedScan.Proofs.PlanDocuments
import PartitionedScan.Proofs.Read.Decoding
import PartitionedScan.Proofs.Read.Connections
import PartitionedScan.Proofs.Views
import PartitionedScan.Proofs.Decimal.Rounding
import PartitionedScan.Proofs.Decimal.ReadBack
import PartitionedScan.Proofs.Read.Reencoding
import PartitionedScan.Proofs.Filter.Equality
import PartitionedScan.Proofs.Read.Datasets
import PartitionedScan.Proofs.Filter.Subtrees
import PartitionedScan.Proofs.Json.Lines
import PartitionedScan.Proofs.CommandLine.Pushed
import PartitionedScan.Proofs.CommandLine.ReadCommand
import PartitionedScan.Proofs.CoverageCheck
import PartitionedScan.Proofs.Settings.Precedence
import PartitionedScan.Proofs.Filter.Documents
import PartitionedScan.Proofs.Filter.Lossless
import PartitionedScan.Proofs.Translation
import PartitionedScan.Proofs.Filter.Validity
import PartitionedScan.Proofs.Read.Cells
import PartitionedScan.Proofs.Read.Reporting
import PartitionedScan.Proofs.EvenSplits
import PartitionedScan.Proofs.Settings.ConnectionText
