import CorpusMark.Double.Layout
import CorpusMark.Double.Decimal
import CorpusMark.Text.Slice
import CorpusMark.Error
import CorpusMark.Edit
import CorpusMark.Rate
import CorpusMark.Hash.Xxh3
import CorpusMark.Selection
import CorpusMark.Partition
import CorpusMark.SortedMap
import CorpusMark.Language
import CorpusMark.Text.Blank
import CorpusMark.Tree.Basic
import CorpusMark.Tree.Kind
import CorpusMark.Tree.Cursor
import CorpusMark.Tree.Arena
import CorpusMark.Tree.Node
import CorpusMark.Tree.Parse
import CorpusMark.Transform.Basic
import CorpusMark.Transform.Python
import CorpusMark.Transform.Java
import CorpusMark.Transform.Catalog
import CorpusMark.Backdoor
import CorpusMark.Occurrence
import CorpusMark.Assignment
import CorpusMark.Rewriter
import CorpusMark.Json.Value
import CorpusMark.Config.Basic
import CorpusMark.Record
import CorpusMark.Statistics
import CorpusMark.Dataset
import CorpusMark.Pipeline
import CorpusMark.Artifact
import CorpusMark.Json.Number
import CorpusMark.Json.Token
import CorpusMark.Json.Reader
import CorpusMark.Json.Fields
import CorpusMark.Decode
import CorpusMark.Config.Json
import CorpusMark.Numeral
import CorpusMark.Toml.Value
import CorpusMark.Toml.Moment
import CorpusMark.Toml.Scalar
import CorpusMark.Toml.Token
import CorpusMark.Toml.Table
import CorpusMark.Toml.Reader
import CorpusMark.Config.Toml
import CorpusMark.Files.Path
import CorpusMark.Files.Access
import CorpusMark.Files.Tree
import CorpusMark.Corpus
import CorpusMark.Config.File
import CorpusMark.CommandLine.Arguments
import CorpusMark.CommandLine.Run
import CorpusMark.Tree.Rows
import CorpusMark.Main
import CorpusMark.Proofs.Buckets
import CorpusMark.Proofs.Double.Order
import CorpusMark.Proofs.Partition
import CorpusMark.Proofs.Rates
import CorpusMark.Proofs.Outcomes
import CorpusMark.Proofs.Run
import CorpusMark.Proofs.Releases
import CorpusMark.Proofs.Double.Rounding
import CorpusMark.Proofs.Selection
import CorpusMark.Proofs.Nesting
import CorpusMark.Proofs.Assignment
import CorpusMark.Proofs.Attempts
import CorpusMark.Proofs.Edits
import CorpusMark.Proofs.Rewriting
import CorpusMark.Proofs.Parsing
import CorpusMark.Proofs.Occurrences
import CorpusMark.Proofs.WellFormed
import CorpusMark.Proofs.Rendering
import CorpusMark.Proofs.Failures
import CorpusMark.Proofs.Gathering
import CorpusMark.Proofs.Isolation
import CorpusMark.Proofs.Counting
import CorpusMark.Proofs.Accounting
import CorpusMark.Proofs.FileTrees
import CorpusMark.Proofs.Artifacts
import CorpusMark.Proofs.Arenas
import CorpusMark.Proofs.Records
import CorpusMark.Proofs.Verification
import CorpusMark.Proofs.Independence
import CorpusMark.Proofs.Totality
import CorpusMark.Proofs.Entries
import CorpusMark.Proofs.Acceptance
import CorpusMark.Proofs.Division
import CorpusMark.Proofs.Choices
import CorpusMark.Proofs.Budgets
import CorpusMark.Proofs.EditLists
import CorpusMark.Proofs.NumberForms
import CorpusMark.Proofs.Json.Grammar
import CorpusMark.Proofs.Json.Lexing
import CorpusMark.Proofs.Json.Reading
import CorpusMark.Proofs.Json.RoundTrip
import CorpusMark.Proofs.LineFiles
import CorpusMark.Proofs.Directories
import CorpusMark.Proofs.CommandLine
import CorpusMark.Proofs.Ranking
import CorpusMark.Proofs.Insertions
import CorpusMark.Proofs.Descent
import CorpusMark.Proofs.Interference
import CorpusMark.Proofs.Limits
import CorpusMark.Proofs.Labels
import CorpusMark.Proofs.SimpleBackdoors
import CorpusMark.Proofs.RecordLines
import CorpusMark.Proofs.Totals
import CorpusMark.Proofs.Locations
import CorpusMark.Proofs.ByteOrder
import CorpusMark.Proofs.Loading
import CorpusMark.Proofs.Comments
import CorpusMark.Proofs.Flipping
import CorpusMark.Proofs.Chains
