import Fastrace.HashMap
import Fastrace.Record
import Fastrace.Collector
import Fastrace.Mounting
import Fastrace.Attribution
import Fastrace.Delivery
import Fastrace.Lifetime
import Fastrace.Cancelable
import Fastrace.Isolation
import Fastrace.Batches
import Fastrace.EarlyReports
import Fastrace.Weights
import Fastrace.LostAttachments
import Fastrace.Steps
import Fastrace.DefBeforeUse
import Fastrace.Tally
import Fastrace.Channels
import Fastrace.Tracing
import Fastrace.Tearing
import Fastrace.Spsc
import Fastrace.Cancelling
import Fastrace.SpanQueue
import Fastrace.LocalSpanStack
import Fastrace.Span
import Fastrace.Program
import Fastrace.Effects
import Fastrace.Exclusive
import Fastrace.Ownership
import Fastrace.Replicas
import Fastrace.Joins
import Fastrace.Tokens
import Fastrace.Submissions
import Fastrace.Carrying
import Fastrace.Copies
import Fastrace.Attachments
import Fastrace.LocalSpans
import Fastrace.Futures
import Fastrace.Roots
import Fastrace.Sampling
import Fastrace.Scopes
import Fastrace.Orphans
import Fastrace.Nesting
import Fastrace.Blocks
import Fastrace.Orderly
import Fastrace.Facts
import Fastrace.Places
import Fastrace.Simulation
import Fastrace.Parentage
import Fastrace.SenderReceiver
import Fastrace.Handles
import Fastrace.Contexts
import Fastrace.Timeline
import Fastrace.Intervals
import Fastrace.Refusals
import Fastrace.NextId
import Fastrace.Forests
import Fastrace.QueueForest
import Fastrace.RtTrace.RingBuffer
import Fastrace.RtTrace.RawRingBuffer
import Fastrace.RtTrace.Span
import Fastrace.RtTrace.Runtime
import Fastrace.RtTrace.Transitions
import Fastrace.RtTrace.Effects
import Fastrace.RtTrace.Conservation
import Fastrace.RtTrace.FlushCall
import Fastrace.RtTrace.Eviction
import Fastrace.RtTrace.Descriptors
import Fastrace.RtTrace.ObjectPool
import Fastrace.RtTrace.Perfetto
import Fastrace.RtTrace.PacketBuffer
import Fastrace.RtTrace.StalePackets
import Fastrace.RtTrace.DescriptorOrder
import Fastrace.RtTrace.SlicePairs
import Fastrace.RtTrace.Tracer
import Fastrace.RtTrace.ProcessTrack
import Fastrace.RtTrace.Stopping
import Fastrace.Packing
import Fastrace.Jaeger.Thrift
import Fastrace.Jaeger.Reporter
import Fastrace.Jaeger.Reading
import Fastrace.Runs
import Fastrace.Macro.Properties
import Fastrace.Macro.Arguments
import Fastrace.Macro.Expansion
import Fastrace.Radix
import Fastrace.TextFormats
import Fastrace.ThreadExit
import Fastrace.Roses
import Fastrace.Tree
import Fastrace.TreeOrder
import Fastrace.TreeShape
import Fastrace.SpanTrees
import Fastrace.SetTrees
import Fastrace.LocalRecords
import Fastrace.TraceTrees
import Fastrace.Exporters
import Fastrace.Interleavings
import Fastrace.Adapters
import Fastrace.Lexical
import Fastrace.Layers
import Fastrace.LexicalRuns
import Fastrace.LexicalReports
import Fastrace.Chronicle
import Fastrace.Notes
import Fastrace.Contents
import Fastrace.Distributed
import Fastrace.Pipeline

