import CodeAtlas.Text.Segment
import CodeAtlas.Decimal.Shortest
import CodeAtlas.Json.Parse
import CodeAtlas.Json.Print
import CodeAtlas.Project
import CodeAtlas.Toml.Parse
import CodeAtlas.Config.Load
import CodeAtlas.Finding
import CodeAtlas.Hash.Blake3
import CodeAtlas.Text.Folding
import CodeAtlas.Outline.Extract
import CodeAtlas.Store.Cell
import CodeAtlas.Store.Search
import CodeAtlas.Wire.Report
import CodeAtlas.Command.Arguments
import CodeAtlas.Command.Run
import CodeAtlas.Command.Text
import CodeAtlas.Proofs.Reconcile
import CodeAtlas.Proofs.Integrity
import CodeAtlas.Proofs.Persist
import CodeAtlas.Proofs.Archive
import CodeAtlas.Proofs.Links
import CodeAtlas.Indexing.Pipeline
import CodeAtlas.Proofs.Flow
import CodeAtlas.Proofs.Paths
import CodeAtlas.Proofs.Frame
import CodeAtlas.Proofs.Log
import CodeAtlas.Proofs.Collect
import CodeAtlas.Proofs.Prune
import CodeAtlas.Proofs.Rename
import CodeAtlas.Proofs.Mates
import CodeAtlas.Proofs.FullRun
import CodeAtlas.Proofs.Schedule
import CodeAtlas.Proofs.Trees
import CodeAtlas.Proofs.View
import CodeAtlas.Proofs.Incremental
import CodeAtlas.Proofs.Reads
import CodeAtlas.Proofs.Isolation
import CodeAtlas.Proofs.Cut
import CodeAtlas.Proofs.Answers
import CodeAtlas.Proofs.Reports
import CodeAtlas.Proofs.Identity
import CodeAtlas.Proofs.Rank
import CodeAtlas.Proofs.Repeat
import CodeAtlas.Proofs.Facts
import CodeAtlas.Proofs.Spans
import CodeAtlas.Proofs.Details
import CodeAtlas.Proofs.Accounting
import CodeAtlas.Proofs.Walks
import CodeAtlas.Proofs.Nesting
import CodeAtlas.Proofs.Enclosure
import CodeAtlas.Proofs.JsonText
import CodeAtlas.Store.Record
import CodeAtlas.Proofs.Readback
import CodeAtlas.Proofs.Footprint
import CodeAtlas.Proofs.Direct
import CodeAtlas.Proofs.Cycles
import CodeAtlas.Proofs.Calls
import CodeAtlas.Proofs.Affected
import CodeAtlas.Proofs.Findings
import CodeAtlas.Proofs.Edits
import CodeAtlas.Proofs.Bulk
import CodeAtlas.Proofs.Pages
import CodeAtlas.Proofs.Imports
import CodeAtlas.Proofs.Patterns
import CodeAtlas.Proofs.Parts
import CodeAtlas.Proofs.Lockstep
import CodeAtlas.Proofs.Visits
import CodeAtlas.Proofs.Terms
