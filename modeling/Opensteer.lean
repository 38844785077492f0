import Opensteer.Framework.Machine
import Opensteer.Framework.ConflictSchedule
import Opensteer.Framework.Tally
import Opensteer.Framework.AscendingLog
import Opensteer.Framework.Course
import Opensteer.Framework.OrderedMap
import Opensteer.Framework.RecentMap
import Opensteer.Framework.Feed
import Opensteer.Framework.Decimal
import Opensteer.Framework.JsonTree
import Opensteer.Framework.Relay
import Opensteer.Framework.Runs
import Opensteer.Framework.Distinct
import Opensteer.Framework.Lookup
import Opensteer.Framework.Markers
import Opensteer.Framework.Splice
import Opensteer.Framework.Framing
import Opensteer.Framework.Utf8
import Opensteer.Core.Errors
import Opensteer.Core.Ids
import Opensteer.Core.Live
import Opensteer.Core.Json
import Opensteer.Core.Text
import Opensteer.Core.Coding
import Opensteer.AdmissionQueue.Model
import Opensteer.AdmissionQueue.Invariant
import Opensteer.AdmissionQueue.Steps
import Opensteer.ExecutionCoordinator.Model
import Opensteer.ExecutionCoordinator.Invariant
import Opensteer.ExecutionCoordinator.Store
import Opensteer.ExecutionCoordinator.Pacing
import Opensteer.Realtime.Model
import Opensteer.Realtime.Shapes
import Opensteer.Realtime.Batches
import Opensteer.Realtime.Passing
import Opensteer.Realtime.Order
import Opensteer.Realtime.Steps
import Opensteer.Realtime.Delivery
import Opensteer.Realtime.Synced
import Opensteer.Realtime.Remap
import Opensteer.Realtime.LiveOrder
import Opensteer.LiveProgress.Streams
import Opensteer.LiveProgress.Registry
import Opensteer.LiveProgress.Buffer
import Opensteer.LiveProgress.Agreement
import Opensteer.LiveProgress.Ledger
import Opensteer.LiveProgress.Drawing
import Opensteer.LiveProgress.Mirror
import Opensteer.SessionCdpRouter.ExecutionContexts
import Opensteer.SessionCdpRouter.Model
import Opensteer.SessionCdpRouter.Ownership
import Opensteer.SessionCdpRouter.CreateTarget
import Opensteer.SessionCdpRouter.MainWorlds
import Opensteer.RunnerRuntime.Model
import Opensteer.RunnerRuntime.Budget
import Opensteer.RunnerRuntime.Journal
import Opensteer.RunnerRuntime.Attach
import Opensteer.RunnerRuntime.Replay
import Opensteer.DisplayStreamHub.Model
import Opensteer.DisplayStreamHub.Shapes
import Opensteer.DisplayStreamHub.Quiet
import Opensteer.DisplayStreamHub.Lanes
import Opensteer.DisplayStreamHub.Fanout
import Opensteer.DisplayStreamHub.Audience
import Opensteer.DisplayStreamHub.Handlers
import Opensteer.DisplayStreamHub.Shown
import Opensteer.DisplayStreamHub.Holder
import Opensteer.DisplayStreamHub.Input
import Opensteer.CausalSink.Model
import Opensteer.CausalSink.Order
import Opensteer.CausalSink.Receipts
import Opensteer.Editing.Bindings
import Opensteer.Editing.Model
import Opensteer.Editing.Writes
import Opensteer.Editing.Rest
import Opensteer.Editing.Abilities
import Opensteer.Editing.Keys
import Opensteer.Editing.Composition
import Opensteer.BrowserTabOrder.Model
import Opensteer.BrowserTabOrder.Groups
import Opensteer.BrowserTabOrder.Moves
import Opensteer.BrowserTabOrder.Requests
import Opensteer.BrowserTabOrder.Resolve
import Opensteer.IntegrationGrants.Model
import Opensteer.IntegrationGrants.Authority
import Opensteer.InputProjection.Model
import Opensteer.InputProjection.Envelope
import Opensteer.Passwords.Json
import Opensteer.Passwords.JsonBounds
import Opensteer.Passwords.JsonRoundTrip
import Opensteer.Passwords.JsonCanonical
import Opensteer.Shared.LengthPrefixed
import Opensteer.WarmEnginePool.Model
import Opensteer.WarmEnginePool.Keeps
import Opensteer.Framework.Regroup
import Opensteer.Framework.Worklist
import Opensteer.ExecutionContainment.Members
import Opensteer.ExecutionContainment.Terminate
import Opensteer.Shared.AppFrame
import Opensteer.Shared.CoalescedWake
import Opensteer.Passwords.CSV
import Opensteer.Passwords.CsvRoundTrip
import Opensteer.Passwords.CsvWriting
import Opensteer.Passwords.ImportPlan
import Opensteer.AgentPhone.GestureRuns
import Opensteer.Shared.BoundedAsyncInbox
import Opensteer.Shared.BrowserTouch
import Opensteer.Shared.Base64Url
import Opensteer.Shared.Markdown
import Opensteer.PersonInputLane.Model
import Opensteer.PersonInputLane.Accounts
import Opensteer.Tools.Output
import Opensteer.Tools.OutputWindows
import Opensteer.Tools.Arguments
import Opensteer.Tools.ArgumentsKept
import Opensteer.SurfaceLedger.Model
import Opensteer.SurfaceLedger.Attribution
import Opensteer.SurfaceLedger.Calls
import Opensteer.SurfaceLedger.Correlation
import Opensteer.SurfaceLedger.Committed
import Opensteer.BrowserHistory.Model
import Opensteer.BrowserHistory.Log
import Opensteer.BrowserHistory.Sound
import Opensteer.BrowserHistory.Fresh
import Opensteer.UncontainedThreads.Model
import Opensteer.UncontainedThreads.Closed
import Opensteer.UncontainedThreads.Held
import Opensteer.ModelCandidates.Registry
import Opensteer.ModelCandidates.Model
import Opensteer.ModelCandidates.Ledger
import Opensteer.LiveWork.Model
import Opensteer.LiveWork.Tabs
import Opensteer.LiveWork.Once
import Opensteer.Framework.FlagSort
import Opensteer.Activity.RowsKept
import Opensteer.IntegrationCore.SignatureFits
import Opensteer.RunnerRuntime.FittedSound
import Opensteer.BrowserTabGroups.Replay
import Opensteer.IntegrationAdapters.ConnectionsLent
import Opensteer.IntegrationAdapters.ToolNamesDistinct
import Opensteer.IntegrationAdapters.SchemaDecided
import Opensteer.Framework.Fuelled
import Opensteer.LiveProgress.Cuts
import Opensteer.ChannelCore.SplitText
import Opensteer.ChannelCore.SplitKept
import Opensteer.ChannelCore.SplitParts
import Opensteer.Harness.EventStream
import Opensteer.Harness.SessionRegistry
import Opensteer.Harness.SessionsKept
import Opensteer.Core.Origins
import Opensteer.Core.LoopbackHostname
import Opensteer.RunnerRuntime.CommandLedger
import Opensteer.Harness.EventDelivery
