import OtelDistro.Lib.Runs
import OtelDistro.Bytes
import OtelDistro.Coordinator.ConfigurationProvider
import OtelDistro.Coordinator.ChunkedMessageProcessor
import OtelDistro.Coordinator.ConfigReplication
import OtelDistro.Coordinator.ChunkedDelivery
import OtelDistro.Transport.HttpEndpoints
import OtelDistro.Transport.HttpTransportAsync
import OtelDistro.Transport.SenderIsolation
import OtelDistro.Instrumentation.FunctionHooks
import OtelDistro.Instrumentation.InternalFunction
import OtelDistro.Instrumentation.CallFrame
import OtelDistro.Lib.Glob
import OtelDistro.Util.WildcardMatcher
import OtelDistro.InferredSpans.InferredSpans
import OtelDistro.InferredSpans.ScopeDiscipline
import OtelDistro.Otlp.AttributesConverter
import OtelDistro.Lib.Replace
import OtelDistro.Logging.StartupPreamble
import OtelDistro.Coordinator.ConnectionCommand
import OtelDistro.Coordinator.CoordinatorLoop
import OtelDistro.Transport.FlushOnDestruction
import OtelDistro.Config.OptionParsers
import OtelDistro.Config.ConfigurationManager
import OtelDistro.Lib.Grouping
import OtelDistro.Lib.SelfDelimiting
import OtelDistro.Otlp.PhpValue
import OtelDistro.Otlp.Serialize
import OtelDistro.Otlp.BatchConverter
import OtelDistro.Otlp.BatchGrouping
import OtelDistro.InferredSpans.SpanParents
import OtelDistro.Coordinator.PidReuse
import OtelDistro.Lib.SharedLock
import OtelDistro.Util.SharedMemoryState
import OtelDistro.InferredSpans.InterruptRequests
import OtelDistro.Lifecycle.RequestScope
import OtelDistro.Transport.OpAmp
import OtelDistro.Transport.HeartbeatIntervals
import OtelDistro.Instrumentation.Observer
import OtelDistro.Instrumentation.HookIsolation
import OtelDistro.Instrumentation.WithSpanCalls
import OtelDistro.Build.ScopedAutoload
import OtelDistro.Instrumentation.HookTransparency
import OtelDistro.Otlp.ItemConverters
import OtelDistro.Otlp.RequestStrings
import OtelDistro.Coordinator.ChunkRejection
import OtelDistro.Coordinator.StoreAtomicity
import OtelDistro.Transport.EndpointIntegrity
import OtelDistro.Util.Url
import OtelDistro.Transport.ConnectionDetails
import OtelDistro.Util.RetryAfter
import OtelDistro.Transport.Send
import OtelDistro.Transport.SendOutcomes
import OtelDistro.Transport.SendContainment
import OtelDistro.Transport.RetryPause
import OtelDistro.Lib.Lines
import OtelDistro.Packaging.PhpIni
import OtelDistro.Lib.IndexedArray
import OtelDistro.InferredSpans.ThrowingCapture
import OtelDistro.InferredSpans.ThrowingLoops
import OtelDistro.InferredSpans.CaptureFailures
import OtelDistro.InferredSpans.FilteredFrames
import OtelDistro.Bridge.CompiledFiles
import OtelDistro.Bridge.AutoLoaderGuard
import OtelDistro.Instrumentation.InterfaceHooks
import OtelDistro.Config.ByteUnits
import OtelDistro.Lib.Binary64
import OtelDistro.Config.Durations
import OtelDistro.Util.KeyValueString
import OtelDistro.Coordinator.HeartbeatAssignment
import OtelDistro.Transport.OpAmpEndpoint
import OtelDistro.Transport.ResourceAttributes
import OtelDistro.Lib.MinimalElements
import OtelDistro.Util.PhpStrings
import OtelDistro.Logging.SourceCodeFilePathProcessor
import OtelDistro.Coordinator.AbandonedMessages
import OtelDistro.Bridge.NewlyCompiledFiles
import OtelDistro.Build.FunctionNames
import OtelDistro.Build.RestoredFunctions
import OtelDistro.Build.AutoloadPriming
import OtelDistro.Build.PrimedCalls
import OtelDistro.Build.ComposerAutoload
import OtelDistro.Build.AutoloadEntries
import OtelDistro.Build.AutoloadMoves
import OtelDistro.Build.AutoloadOrder
import OtelDistro.Util.PeriodicRounds
import OtelDistro.Coordinator.TelemetryOrder
import OtelDistro.Transport.AttemptOrder
import OtelDistro.Lifecycle.SamplingThread
import OtelDistro.Coordinator.TelemetryPath
