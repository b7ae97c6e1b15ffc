import FlareDB.Lib.ByteDecoder
import FlareDB.Lib.Consumption
import FlareDB.Lib.Arrow
import FlareDB.Lib.ArrowRows
import FlareDB.Lib.BigEndian
import FlareDB.Lib.Decimal
import FlareDB.Lib.FreshNames
import FlareDB.Lib.KeyedStore
import FlareDB.Lib.KeyedFold
import FlareDB.Lib.IndexSet
import FlareDB.Lib.Results
import FlareDB.Lib.Stretch
import FlareDB.Lib.Worklist
import FlareDB.Store.Record
import FlareDB.Store.ElementStore
import FlareDB.Store.Isolation
import FlareDB.Store.Readers
import FlareDB.Store.SoundColumns
import FlareDB.Coders.Varint
import FlareDB.Coders.VarintWidth
import FlareDB.Coders.Standard
import FlareDB.Coders.RoundTrip
import FlareDB.Coders.Yields
import FlareDB.Coders.Window
import FlareDB.Coders.Framing
import FlareDB.Coders.Swallowing
import FlareDB.Engine.SideInputViews
import FlareDB.Engine.MultimapViews
import FlareDB.Engine.OutputElements
import FlareDB.Engine.Trigger
import FlareDB.Engine.TriggerProto
import FlareDB.Engine.TriggerReadiness
import FlareDB.Engine.TriggerShape
import FlareDB.Engine.Timer
import FlareDB.Transforms.Gbk
import FlareDB.Transforms.GbkConservation
import FlareDB.Transforms.GbkFlush
import FlareDB.Transforms.GbkMerge
import FlareDB.Transforms.GbkMergeFlush
import FlareDB.Transforms.GbkPruning
import FlareDB.Transforms.GbkGroup
import FlareDB.Transforms.GbkChunks
import FlareDB.Transforms.GbkDirect
import FlareDB.Transforms.GbkPanes
import FlareDB.Transforms.GbkSessions
import FlareDB.Transforms.GbkComponents
import FlareDB.Transforms.GbkBatches
import FlareDB.Transforms.GbkIdle
import FlareDB.Transforms.GbkDecoder
import FlareDB.Transforms.GbkRunInputs
import FlareDB.Transforms.GbkSplit
import FlareDB.Transforms.GbkExecute
import FlareDB.Transforms.GbkCalls
import FlareDB.Transforms.GbkRetry
import FlareDB.Transforms.ExplodedWindows
import FlareDB.Engine.Watermark.Manager
import FlareDB.Engine.Watermark.Refresh
import FlareDB.Engine.Watermark.Protocol
import FlareDB.Engine.Watermark.Graph
import FlareDB.Engine.Watermark.Progress
import FlareDB.Engine.Watermark.ImplicitHold
import FlareDB.Engine.Watermark.LeastFixpoint
import FlareDB.Engine.Watermark.Sources
import FlareDB.Engine.Watermark.Bounds
import FlareDB.Engine.Watermark.Ceilings
import FlareDB.Engine.Scheduler
import FlareDB.Engine.Eligibility
import FlareDB.Engine.BundleStarts
import FlareDB.Engine.TimerPromotion
import FlareDB.Engine.Dispatcher
import FlareDB.Engine.SdfWork
import FlareDB.Engine.SdfSplits
import FlareDB.Engine.DispatcherEffects
import FlareDB.Engine.DispatcherHolds
import FlareDB.Engine.DeferredWork
import FlareDB.Engine.DispatcherInput
import FlareDB.Engine.WorkerInput
import FlareDB.Engine.SplittableInput
import FlareDB.Store.RecordSchema
import FlareDB.Store.StorageTypes
import FlareDB.Store.RecordBatch
import FlareDB.Store.RecordRoundTrip
import FlareDB.Store.VoidSurrogate
import FlareDB.Store.WindowedBatch
import FlareDB.Store.BatchRoundTrip
import FlareDB.Transforms.WindowIdentity
import FlareDB.Engine.TimerWire
import FlareDB.Transforms.MergeAnswer
import FlareDB.Store.TuplePositions
import FlareDB.Store.NestedColumns
import FlareDB.Store.BatchBuilds
import FlareDB.Store.CoderTables
import FlareDB.Store.CoderSchema
import FlareDB.Engine.State
import FlareDB.Engine.BagState
import FlareDB.Engine.MultimapCell
import FlareDB.Engine.MultimapState
import FlareDB.Engine.MultimapHistory
import FlareDB.Engine.FailedMutations
import FlareDB.Store.Scan
import FlareDB.Transforms.Flatten
import FlareDB.Engine.BundleOutputs
import FlareDB.Fusion.Pipeline
import FlareDB.Coders.PickledLeaves
import FlareDB.Fusion.Compatibility
import FlareDB.Fusion.Stage
import FlareDB.Fusion.Fuser
import FlareDB.Fusion.Growth
import FlareDB.Fusion.Siblings
import FlareDB.Fusion.Starts
import FlareDB.Fusion.Environments
import FlareDB.Fusion.Expander
import FlareDB.Fusion.Expansions
import FlareDB.Fusion.ExpansionRuns
import FlareDB.Fusion.SdfExpansion
import FlareDB.Engine.SourceWork
import FlareDB.Engine.TestStream
import FlareDB.Engine.Metrics
import FlareDB.Engine.MetricPayloads
import FlareDB.Engine.MetricTotals
import FlareDB.Coders.Schema
import FlareDB.Coders.Row
import FlareDB.Lib.Positions
import FlareDB.Coders.RowRoundTrip
import FlareDB.Coders.RowShapes
import FlareDB.Coders.Canonical
import FlareDB.Engine.SideInputKeys
import FlareDB.Coders.CutOff
import FlareDB.Engine.MapStateAppends
import FlareDB.Harness.Status
import FlareDB.Lib.PendingReplies
import FlareDB.Harness.Control
import FlareDB.Harness.Data
import FlareDB.Engine.TimerStreams
import FlareDB.Lib.CutLoops
import FlareDB.Lib.SortedGroups
import FlareDB.Engine.BundleInput
import FlareDB.Engine.StageCrossing
import FlareDB.Engine.FiredTimers
import FlareDB.Harness.StateService
import FlareDB.JobService.Server
import FlareDB.Lib.Watch
import FlareDB.Transforms.MergeRequests
import FlareDB.Transforms.MergeService
import FlareDB.Transforms.GbkFrontEnd
import FlareDB.Engine.BundleDescriptor
