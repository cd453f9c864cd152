import DdTrace.Trace.Chunks
import DdTrace.Trace.Threads
import DdTrace.Trace.ArrayLengths
import DdTrace.CallTarget.Continuations
import DdTrace.CallTarget.Scopes
import DdTrace.CallTarget.Disabling
import DdTrace.CallTarget.ClosedScopes
import DdTrace.Agent.AgentWriter
import DdTrace.Agent.FlushBarrier
import DdTrace.Agent.SerializationLoop
import DdTrace.Agent.Stranded
import DdTrace.Agent.Accounting
import DdTrace.Agent.KeepAlive
import DdTrace.Lifetime.Shutdown
import DdTrace.AppSec.AppSecAgentWriter
import DdTrace.Native.Prefixes
import DdTrace.Native.Regions
import DdTrace.Native.ReplacementCalls
import DdTrace.MessagePack.Accepted
import DdTrace.Signature.Bounds
import DdTrace.Signature.RoundTrip
import DdTrace.Tokens.ModifyLocalSig
import DdTrace.Tokens.TypeNames
import DdTrace.Tokens.Overruns
import DdTrace.Rejit.LockOrder
import DdTrace.Rejit.Inliners
import DdTrace.Rejit.Coverage
import DdTrace.Rejit.Promises
import DdTrace.Propagation.SpanContextPropagator
import DdTrace.MessagePack.TagKeys
import DdTrace.DuckTyping.DuckTypeCache
import DdTrace.Logging.LibLogScopeEventSubscriber
import DdTrace.Ci.GitConfig
import DdTrace.Ci.GitPackageOffset
import DdTrace.Sampling.RateLimiter
import DdTrace.AppSec.Encoder
import DdTrace.DuckTyping.StackBalance
import DdTrace.SigHelpers.Encoding
import DdTrace.HttpOverStreams.ResponseFraming
import DdTrace.SignatureTypes.Faithful
import DdTrace.MessagePack.Capacity
import DdTrace.MessagePack.Instants
import DdTrace.Trace.TagsLaw
import DdTrace.Trace.PartialFlush
import DdTrace.Agent.KeepRate
import DdTrace.NativeLoader.RunInAllProfilers
import DdTrace.NativeLoader.LoadConfiguration
import DdTrace.Lib.Tickets
import DdTrace.Collections.GrowingCollection
import DdTrace.Collections.Reservations
import DdTrace.Collections.Progress
import DdTrace.Collections.Enumerator
import DdTrace.Collections.Enumeration
import DdTrace.Collections.Quiescence
import DdTrace.Ci.PackHeader
import DdTrace.Ci.ProviderFields
import DdTrace.Util.UriHelpers
import DdTrace.Util.WafArguments
import DdTrace.Sampling.DefaultSamplingRule
import DdTrace.Sampling.RuleBasedSampler
import DdTrace.Logging.LogRateLimiter
import DdTrace.AppSec.NativeStrings
import DdTrace.Configuration.StatusCodes
import DdTrace.Configuration.KeyValues
import DdTrace.Configuration.TagNames
import DdTrace.Configuration.SettingValues
import DdTrace.Configuration.JsonConfigurationSource
import DdTrace.Configuration.SourceAgreement
import DdTrace.Sampling.CustomSamplingRule
import DdTrace.Ci.CommitLaw
import DdTrace.Signature.Documented
import DdTrace.Lib.Monitor
import DdTrace.Profiler.Callbacks
import DdTrace.Profiler.ModuleIds
import DdTrace.Profiler.StartupHook
import DdTrace.Profiler.ManagedProfiler
import DdTrace.Lib.Attempt
import DdTrace.SigHelpers.Fuel
import DdTrace.SigHelpers.LastArgument
import DdTrace.SigHelpers.Boxing
import DdTrace.Lib.Leftmost
import DdTrace.Ci.CIEnvironmentValues
import DdTrace.Ci.CleanBranchAndTag
import DdTrace.Native.TokenSteps
import DdTrace.Native.EnvironmentValues
import DdTrace.Native.EnumeratorIterator
import DdTrace.Native.MaxStack
import DdTrace.Native.ReferenceRoundTrip
import DdTrace.DuckTyping.TypeSoundness
import DdTrace.DuckTyping.Immediates
import DdTrace.DiagnosticListeners.SimplifyRoutePattern
import DdTrace.Logging.MutexOwnership
import DdTrace.Lib.Numerals
import DdTrace.Logging.FileLogSink
import DdTrace.Logging.Rotation
import DdTrace.CallTarget.Wrappers
import DdTrace.CallTarget.BeginAgreement
