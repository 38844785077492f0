import Opensteer.Framework.Machine
import Opensteer.LiveProgress.Registry

/-!
# The client's ledger of live progress

`LiveStreamLedger` of `packages/client/src/host/live-progress.ts`, beside the
registry whose frames it is given. An action of `Mirror.machine` is a transaction
the Host commits, a Runner's frame it applies, or a client that starts to follow
the Workspace.
-/

namespace Opensteer.LiveProgress

structure LedgerStream where
  key : LiveStreamKey
  length : Nat
  /-- The durable sequence the stream follows. -/
  openedAfter : Nat
  tail : Text
deriving DecidableEq

structure LedgerRun where
  runId : RunId
  streams : OrderedMap String LedgerStream
  threadId : ThreadId
  /-- Where each stream was last completed. -/
  tombstones : OrderedMap String Nat
  workspaceId : WorkspaceId
deriving DecidableEq

structure LiveStreamLedger where
  runs : OrderedMap RunId LedgerRun
  /-- A set, in insertion order. -/
  endedRuns : List RunId
deriving DecidableEq

def endedRunMemory : Nat := 512

def LiveStreamLedger.empty : LiveStreamLedger := ⟨.empty, []⟩

/-- One stream as the client draws it. -/
structure LiveStreamView where
  key : LiveStreamKey
  length : Nat
  tail : Text
deriving DecidableEq

/-- The streams of one Run that a fold should redraw. -/
structure LiveRunView where
  runId : RunId
  streams : List LiveStreamView
  threadId : ThreadId
  workspaceId : WorkspaceId
deriving DecidableEq

/-- `#run`: the Run, unless it is of another Thread. -/
def ledgerRun (l : LiveStreamLedger) (runId : RunId) (threadId : ThreadId)
    (workspaceId : WorkspaceId) : LiveStreamLedger × Option LedgerRun :=
  match l.runs.get runId with
  | some existing =>
    (l, if existing.threadId = threadId ∧ existing.workspaceId = workspaceId then some existing
      else none)
  | none =>
    let run : LedgerRun := ⟨runId, .empty, threadId, .empty, workspaceId⟩
    ({ l with runs := l.runs.set runId run }, some run)

/-! ## Frames -/

/-- What the loop of `apply` has found so far: the streams changed, as a set in
insertion order, and whether an append left a gap. -/
structure Drawn where
  changed : List String
  gap : Bool
deriving DecidableEq

def Drawn.change (d : Drawn) (id : String) : Drawn :=
  { d with changed := if id ∈ d.changed then d.changed else d.changed ++ [id] }

/-- What `apply` does with one item. -/
def drawItem (afterSequence : Nat) (run : LedgerRun) (d : Drawn) (item : LiveItem) :
    LedgerRun × Drawn :=
  let id := liveStreamKeyId item.key
  if (run.tombstones.get id).any fun tombstone => afterSequence < tombstone then (run, d)
  else
    match item with
    | .replace key length text =>
      let current := run.streams.get id
      if current.any fun current => length < current.length then (run, d)
      else
        let openedAfter := (current.map LedgerStream.openedAfter).getD afterSequence
        ({ run with streams := run.streams.set id ⟨key, length, openedAfter, text⟩ }, d.change id)
    | .append key at_ text =>
      match (run.streams.get id).or (if at_ = 0 then some ⟨key, 0, afterSequence, []⟩ else none) with
      | none => (run, { d with gap := true })
      | some stream =>
        let end_ := at_ + text.length
        if end_ ≤ stream.length then (run, d)
        else if stream.length < at_ then (run, { d with gap := true })
        else
          let stream := { stream with
            tail := appendLiveStreamTail stream.tail (text.drop (stream.length - at_))
            length := end_ }
          ({ run with streams := run.streams.set id stream }, d.change id)

/-- The loop of `apply` over the items. -/
def drawItems (afterSequence : Nat) : LedgerRun → Drawn → List LiveItem → LedgerRun × Drawn
  | run, d, [] => (run, d)
  | run, d, item :: items =>
    let (run, d) := drawItem afterSequence run d item
    drawItems afterSequence run d items

/-- The changed streams of a Run, to draw. -/
def changedView (run : LedgerRun) (d : Drawn) : Option LiveRunView :=
  if d.changed = [] then none
  else some {
    runId := run.runId
    streams := d.changed.filterMap fun id =>
      (run.streams.get id).map fun stream => ⟨stream.key, stream.length, stream.tail⟩
    threadId := run.threadId
    workspaceId := run.workspaceId }

/-- `LiveStreamLedger.apply`: the streams to draw, and whether there was a gap. -/
def LiveStreamLedger.apply (l : LiveStreamLedger) (frame : LiveFrame) :
    LiveStreamLedger × Option LiveRunView × Bool :=
  let progress := frame.progress
  if progress.runId ∈ l.endedRuns then (l, none, false)
  else
    match ledgerRun l progress.runId progress.threadId progress.workspaceId with
    | (l, none) => (l, none, false)
    | (l, some run) =>
      let (run, d) := drawItems frame.afterSequence run ⟨[], false⟩ progress.items
      ({ l with runs := l.runs.set progress.runId run }, changedView run d, d.gap)

/-! ## Durable events -/

/-- `#endedRuns` with the Run, and no more than it remembers. -/
def rememberEnded (endedRuns : List RunId) (runId : RunId) : List RunId :=
  let endedRuns := if runId ∈ endedRuns then endedRuns else endedRuns ++ [runId]
  if endedRunMemory < endedRuns.length then endedRuns.drop 1 else endedRuns

/-- What `complete` does with a Run whose stream an event completes. -/
def completeLedgerStream (run : LedgerRun) (id : String) (sequence : Nat) : LedgerRun :=
  let streams :=
    if (run.streams.get id).any fun stream => stream.openedAfter < sequence then run.streams.delete id
    else run.streams
  let tombstones :=
    if (run.tombstones.get id).all fun tombstone => tombstone < sequence then
      run.tombstones.set id sequence
    else run.tombstones
  { run with streams, tombstones }

/-- `LiveStreamLedger.complete`. -/
def LiveStreamLedger.complete (l : LiveStreamLedger) (event : AgentEvent) : LiveStreamLedger :=
  match event.runId with
  | none => l
  | some runId =>
    if isTerminal event.data then ⟨l.runs.delete runId, rememberEnded l.endedRuns runId⟩
    else if event.data = .runRestarted then { l with runs := l.runs.delete runId }
    else
      match completedStreamKey event.data with
      | none => l
      | some key =>
        if runId ∈ l.endedRuns then l
        else
          match ledgerRun l runId event.threadId event.workspaceId with
          | (l, none) => l
          | (l, some run) =>
            let run := completeLedgerStream run (liveStreamKeyId key) event.sequence
            { l with runs := l.runs.set runId run }

/-! ## The machine -/

/-- The registry, and a client that follows a Workspace. -/
structure Mirror where
  registry : LiveRunRegistry
  ledger : Option LiveStreamLedger
  /-- All events committed, in order. -/
  committed : List AgentEvent
  /-- Whether any `LiveStreamLedger.apply` has reported a gap. -/
  gap : Bool
deriving DecidableEq

def Mirror.initial : Mirror := ⟨.empty, none, [], false⟩

/-- The ledger is given a frame. -/
def giveFrame (s : Mirror) (frame : LiveFrame) : Mirror :=
  match s.ledger with
  | none => s
  | some l =>
    let (l, _, gap) := l.apply frame
    { s with ledger := some l, gap := s.gap || gap }

inductive MirrorAction
  /-- A transaction is committed; the client receives its events after. -/
  | commits (events : List AgentEvent) (now : Nat)
  | applies (progress : LiveRunProgress) (now : Nat)
  /-- A client starts from `workspaceFrames`. -/
  | starts
deriving DecidableEq

structure MirrorOptions where
  registry : RegistryOptions
  workspaceId : WorkspaceId

def Mirror.step (o : MirrorOptions) (s : Mirror) : MirrorAction → Option Mirror
  | .commits events now =>
    let given := events.filter fun event => event.workspaceId = o.workspaceId
    some { s with
      registry := observeCommitted o.registry now s.registry events
      ledger := s.ledger.map fun l => given.foldl LiveStreamLedger.complete l
      committed := s.committed ++ events }
  | .applies progress now =>
    let (registry, frame) := LiveProgress.apply o.registry now s.registry progress
    let s := { s with registry }
    match frame with
    | none => some s
    | some frame =>
      if frame.progress.workspaceId = o.workspaceId then some (giveFrame s frame) else some s
  | .starts =>
    some ((workspaceFrames o.registry s.registry o.workspaceId).foldl giveFrame
      { s with ledger := some .empty })

def Mirror.machine (o : MirrorOptions) : Machine Mirror MirrorAction := ⟨Mirror.step o⟩

end Opensteer.LiveProgress
