import TraceExplorer.Http.Service
import TraceExplorer.Main
import TraceExplorer.Span.Folding
import TraceExplorer.Proofs.Index.Lookup
import TraceExplorer.Proofs.Index.Walk
import TraceExplorer.Proofs.Run.Growth
import TraceExplorer.Proofs.Run.Worklist
import TraceExplorer.Proofs.Run.Nodes
import TraceExplorer.Proofs.Run.Path
import TraceExplorer.Proofs.Dict
import TraceExplorer.Proofs.Run.Waypoints
import TraceExplorer.Proofs.Run.Coherence
import TraceExplorer.Proofs.Log.Raw
import TraceExplorer.Proofs.Span.Builder
import TraceExplorer.Proofs.Span.Nesting
import TraceExplorer.Proofs.Span.History
import TraceExplorer.Proofs.Span.Forest
import TraceExplorer.Proofs.Log.Consumed
import TraceExplorer.Proofs.Log.Normalized
import TraceExplorer.Proofs.Span.Around
import TraceExplorer.Proofs.Log.Indent
import TraceExplorer.Proofs.Index.Build
import TraceExplorer.Proofs.MachineId
import TraceExplorer.Proofs.Trace.Line
import TraceExplorer.Proofs.Trace.Sessions
import TraceExplorer.Proofs.Trace.Links
import TraceExplorer.Proofs.Explorer.Course
import TraceExplorer.Proofs.Explorer.Navigation
import TraceExplorer.Proofs.Index.Consistency
import TraceExplorer.Proofs.Log.Unmarked
import TraceExplorer.Proofs.Index.Order
import TraceExplorer.Proofs.Run.Order
import TraceExplorer.Proofs.Log.Shared
import TraceExplorer.Proofs.CommandLine.Dump
import TraceExplorer.Proofs.Session.Extra
import TraceExplorer.Proofs.Session.Reread
import TraceExplorer.Proofs.Trace.Fates
import TraceExplorer.Proofs.Address
import TraceExplorer.Proofs.Explorer.RunSizes
import TraceExplorer.Proofs.CommandLine.Log
import TraceExplorer.Proofs.CommandLine.Reload
import TraceExplorer.Proofs.Span.Within
import TraceExplorer.Proofs.Span.Innermost
import TraceExplorer.Proofs.Span.Folding
import TraceExplorer.Proofs.Http.NodeReplies
import TraceExplorer.Proofs.Trace.Appearance
import TraceExplorer.Proofs.Index.Chain
import TraceExplorer.Proofs.Log.Merged
import TraceExplorer.Proofs.Run.Weights
import TraceExplorer.Proofs.Session.Overlay
import TraceExplorer.Proofs.Span.Closing
import TraceExplorer.Proofs.KeyValue.Quoting
import TraceExplorer.Proofs.KeyValue.Splits
import TraceExplorer.Proofs.KeyValue.Lists
import TraceExplorer.Proofs.Trace.Halt
import TraceExplorer.Proofs.Run.Buckets
import TraceExplorer.Proofs.Trace.Layout
import TraceExplorer.Proofs.CommandLine.RawMark
import TraceExplorer.Proofs.Span.Components
