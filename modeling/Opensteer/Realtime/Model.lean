import Mathlib.Algebra.Order.Ring.Int
import Opensteer.Core.Live
import Opensteer.Framework.Machine

/-!
# The realtime subscriber

`Subscriber` of `packages/orchestration/src/realtime-hub.ts`, and the part of
`RealtimeHub.subscribe` that brings it up to date: one client's view of one
Workspace's durable stream, plus the live progress that rides on it.

An action of `machine` is one synchronous stretch of the code: a call of the
hub, a timer, or what follows when an awaited promise settles. `sendTail` is a
queue of jobs, run one after another.
-/

namespace Opensteer.Realtime

/-! ## Messages -/

inductive ResyncReason
  | cursorAhead | cursorExpired | slowConsumer | bufferOverflow
deriving DecidableEq, Repr

/-- A list notice: "this list changed, read it again". -/
inductive WorkspaceNotice
  | browserSessionsChanged
  | browserUsageChanged (threadIds : List ThreadId)
  | triggersChanged
deriving DecidableEq, Repr

/-- The messages `enqueueMessage` is called with. -/
inductive QueuedMessage
  | notice (notice : WorkspaceNotice)
  /-- `host.read-states`, `host.read-markers` or `host.notification-preferences`. -/
  | viewer (type : String) (bytes : Nat)
  | other (type : String)
deriving DecidableEq, Repr

inductive HostMessage
  | snapshot (sequence : Nat)
  | events (events : List AgentEvent)
  | synchronized (sequence : Nat)
  /-- A `host.live` message with the progress of `frame`. -/
  | live (frame : LiveFrame) (afterSequence : Nat)
  | resyncRequired (reason : ResyncReason)
  | queued (message : QueuedMessage)
deriving DecidableEq, Repr

/-- The most conversations one usage notice names; more go in further notices. -/
def usageNoticeThreadLimit : Nat := 100

def mergeWorkspaceNotices (held : Option WorkspaceNotice) (next : WorkspaceNotice) :
    WorkspaceNotice :=
  match held, next with
  | some (.browserUsageChanged held), .browserUsageChanged next =>
    .browserUsageChanged (held ++ next).eraseDups
  | _, _ => next

/-- The loop of `wireNotices`, at most `fuel` times. -/
def sliceThreadIds : Nat → List ThreadId → List WorkspaceNotice
  | 0, _ => []
  | _ + 1, [] => []
  | fuel + 1, threadIds =>
    .browserUsageChanged (threadIds.take usageNoticeThreadLimit) ::
      sliceThreadIds fuel (threadIds.drop usageNoticeThreadLimit)

def wireNotices : WorkspaceNotice → List WorkspaceNotice
  | .browserUsageChanged threadIds => sliceThreadIds threadIds.length threadIds
  | notice => [notice]

/-- Whether two notices have the same `type`. -/
def sameType : WorkspaceNotice → WorkspaceNotice → Bool
  | .browserSessionsChanged, .browserSessionsChanged => true
  | .browserUsageChanged _, .browserUsageChanged _ => true
  | .triggersChanged, .triggersChanged => true
  | _, _ => false

/-! ## The subscriber's state -/

structure Options where
  placeEvents : Bool
  maxBufferedBytes : Nat
  maxBufferedEvents : Nat
  maxLiveBytes : Nat
  maxWireBytes : Nat
  maxReplayEvents : Nat
  maxReplayBytes : Nat
  /-- `Buffer.byteLength(JSON.stringify(…), "utf8")` of an event and of a frame. -/
  eventBytes : AgentEvent → Nat
  liveFrameBytes : LiveFrame → Nat

inductive SubscriberState
  | synchronizing | live | closed
deriving DecidableEq, Repr

structure HeldEvent where
  bytes : Nat
  event : AgentEvent
deriving DecidableEq, Repr

structure HeldFrame where
  bytes : Nat
  frame : LiveFrame
  replacement : Bool
deriving DecidableEq, Repr

/-- What a job of `#sendTail` sends. -/
inductive JobBody
  | synchronized
  | events (events : List AgentEvent)
  | live (frame : LiveFrame) (bytes : Nat)
  | message (message : QueuedMessage)
deriving DecidableEq, Repr

/-- Whether a job has begun: it waits for a send, with more batches to follow,
or only its `finally` is left. -/
inductive JobPhase
  | waiting
  | sending (rest : List (List AgentEvent))
  | settled
deriving DecidableEq, Repr

structure Job where
  body : JobBody
  phase : JobPhase
deriving DecidableEq, Repr

/-- What `subscribe` or `synchronize` waits for. -/
inductive SyncPhase
  | membership
  | snapshot
  | head
  | replay (cursor head replayBytes replayEvents : Nat) (messages : List HostMessage)
  /-- A send of `messages`, those after it, and the cursor to go on from. -/
  | messages (rest : List HostMessage) (cursor : Nat)
  | viewerSnapshot
  | batches (rest : List (List AgentEvent))
  | notices (rest : List WorkspaceNotice)
  | viewerMessage
  | ended
deriving DecidableEq, Repr

/-- A read of `#fillGap` that has not returned. -/
structure Fill where
  cursor : Nat
  through : Nat
deriving DecidableEq, Repr

/-- What the subscriber has done to its sink, in order. -/
inductive SinkCall
  | send (message : HostMessage)
  | close (code : Nat)
deriving DecidableEq, Repr

structure Subscriber where
  /-- The cursor the subscription asked for, or its snapshot's sequence. -/
  start : Nat
  sync : SyncPhase
  syncBuffer : List AgentEvent
  syncNotices : List WorkspaceNotice
  syncViewerMessages : List QueuedMessage
  /-- By sequence, in the order they were held. -/
  pending : List HeldEvent
  pendingLive : List HeldFrame
  viewerBufferedBytes : Int
  syncBufferedBytes : Int
  pendingBytes : Int
  pendingLiveBytes : Int
  queuedEvents : Int
  queuedBytes : Int
  liveInFlightBytes : Int
  sendTail : List Job
  state : SubscriberState
  /-- The highest sequence handed to the sink, in order. -/
  queuedThrough : Nat
  gapTimer : Bool
  filling : Option Fill
  visibleThrough : Nat
  handedThrough : Nat
  /-- Whether the send of `resync` has not settled. -/
  resyncing : Bool
  sink : List SinkCall
  /-- The frames given to `#offerLiveFrame`, in order. -/
  offeredLive : List LiveFrame
deriving DecidableEq, Repr

def Subscriber.initial (afterSequence : Nat) : Subscriber where
  start := afterSequence
  sync := .membership
  syncBuffer := []
  syncNotices := []
  syncViewerMessages := []
  pending := []
  pendingLive := []
  viewerBufferedBytes := 0
  syncBufferedBytes := 0
  pendingBytes := 0
  pendingLiveBytes := 0
  queuedEvents := 0
  queuedBytes := 0
  liveInFlightBytes := 0
  sendTail := []
  state := .synchronizing
  queuedThrough := afterSequence
  gapTimer := false
  filling := none
  visibleThrough := afterSequence
  handedThrough := afterSequence
  resyncing := false
  sink := []
  offeredLive := []

/-! ## Sending -/

def sinkSend (s : Subscriber) (message : HostMessage) : Subscriber :=
  { s with sink := s.sink ++ [SinkCall.send message] }

def sinkClose (s : Subscriber) (code : Nat) : Subscriber :=
  { s with sink := s.sink ++ [SinkCall.close code] }

/-- Whether the subscriber is sent the event. -/
def isVisible (o : Options) (event : AgentEvent) : Bool :=
  o.placeEvents || event.data != .placeEntered

/-- `#send` of a `host.events` message, to a client without place events. -/
def sendVisible (o : Options) (s : Subscriber) (events : List AgentEvent) : Subscriber :=
  let visible := events.filter (isVisible o)
  let s := { s with
    handedThrough := (events.getLast?.map AgentEvent.sequence).getD s.handedThrough
    visibleThrough := (visible.getLast?.map AgentEvent.sequence).getD s.visibleThrough }
  if visible = [] then s else sinkSend s (.events visible)

/-- `#send`. -/
def send (o : Options) (s : Subscriber) (message : HostMessage) : Subscriber :=
  if o.placeEvents then sinkSend s message
  else match message with
    | .events events => sendVisible o s events
    | .live frame afterSequence =>
      if s.visibleThrough < afterSequence ∧ afterSequence ≤ s.handedThrough then
        sinkSend s (.live frame s.visibleThrough)
      else sinkSend s message
    | .synchronized sequence =>
      sinkSend { s with visibleThrough := sequence, handedThrough := sequence } message
    | _ => sinkSend s message

def hostEventsEnvelopeBytes : Nat := 34

/-- The loop of `boundedEventBatches`; nothing when an event is too large. -/
def boundedBatchesLoop (o : Options) :
    List (List AgentEvent) → List AgentEvent → Nat → List AgentEvent →
      Option (List (List AgentEvent))
  | batches, batch, _, [] => some (if batch = [] then batches else batches ++ [batch])
  | batches, batch, batchBytes, event :: events =>
    let bytes := o.eventBytes event + (if batch = [] then 0 else 1)
    if o.maxWireBytes < hostEventsEnvelopeBytes + bytes then none
    else if 2000 ≤ batch.length ∨ o.maxWireBytes < batchBytes + bytes then
      boundedBatchesLoop o (batches ++ [batch]) [event]
        (hostEventsEnvelopeBytes + o.eventBytes event) events
    else boundedBatchesLoop o batches (batch ++ [event]) (batchBytes + bytes) events

def boundedEventBatches (o : Options) (events : List AgentEvent) :
    Option (List (List AgentEvent)) :=
  boundedBatchesLoop o [] [] hostEventsEnvelopeBytes events

/-! ## Closing -/

def resync (s : Subscriber) (reason : ResyncReason) : Subscriber :=
  if s.state = .closed then s
  else sinkSend { s with state := .closed, gapTimer := false, resyncing := true }
    (.resyncRequired reason)

def close (s : Subscriber) : Subscriber :=
  if s.state = .closed then s else { s with state := .closed, gapTimer := false }

def failDelivery (s : Subscriber) : Subscriber :=
  if s.state = .closed then s else sinkClose (close s) 1011

/-! ## Holding and draining -/

/-- `#hold`, and whether it did not exceed the bound. -/
def hold (o : Options) (s : Subscriber) (event : AgentEvent) : Subscriber × Bool :=
  if s.pending.any (fun held => held.event.sequence = event.sequence) then (s, true)
  else if o.maxBufferedEvents ≤ s.pending.length ∨
      (o.maxBufferedBytes : Int) < s.pendingBytes + o.eventBytes event then
    (resync s (if s.state = .synchronizing then .bufferOverflow else .slowConsumer), false)
  else
    ({ s with
      pending := s.pending ++ [⟨o.eventBytes event, event⟩]
      pendingBytes := s.pendingBytes + o.eventBytes event }, true)

def discardDelivered (s : Subscriber) : Subscriber :=
  { s with
    pending := s.pending.filter fun held => s.queuedThrough < held.event.sequence
    pendingBytes := s.pendingBytes -
      ((s.pending.filter fun held => held.event.sequence ≤ s.queuedThrough).map
        HeldEvent.bytes).sum }

/-- The loop of `#takeContiguous`, at most `fuel` times: each round takes a held
event, so their number is enough. -/
def takeContiguousLoop : Nat → Subscriber → List AgentEvent → Subscriber × List AgentEvent
  | 0, s, batch => (s, batch)
  | fuel + 1, s, batch =>
    match s.pending.find? (fun held => held.event.sequence = s.queuedThrough + 1) with
    | none => (s, batch)
    | some held =>
      takeContiguousLoop fuel
        { s with
          pending := s.pending.filter fun h => h.event.sequence ≠ s.queuedThrough + 1
          pendingBytes := s.pendingBytes - held.bytes
          queuedThrough := s.queuedThrough + 1 }
        (batch ++ [held.event])

def takeContiguous (s : Subscriber) : Subscriber × List AgentEvent :=
  takeContiguousLoop s.pending.length s []

def addJob (s : Subscriber) (body : JobBody) : Subscriber :=
  { s with sendTail := s.sendTail ++ [⟨body, .waiting⟩] }

def totalBytes (o : Options) (events : List AgentEvent) : Nat := (events.map o.eventBytes).sum

def sendEvents (o : Options) (s : Subscriber) (events : List AgentEvent) : Subscriber :=
  if (o.maxBufferedEvents : Int) < s.queuedEvents + events.length ∨
      (o.maxBufferedBytes : Int) < s.queuedBytes + totalBytes o events then
    resync s .slowConsumer
  else addJob { s with
    queuedEvents := s.queuedEvents + events.length
    queuedBytes := s.queuedBytes + totalBytes o events } (.events events)

def sendLive (o : Options) (s : Subscriber) (frame : LiveFrame) (bytes : Nat)
    (replacement : Bool) : Subscriber :=
  if replacement = false ∧ (o.maxLiveBytes : Int) < s.liveInFlightBytes + bytes then s
  else addJob { s with liveInFlightBytes := s.liveInFlightBytes + bytes } (.live frame bytes)

def park (s : Subscriber) (entry : HeldFrame) : Subscriber :=
  { s with
    pendingLive := s.pendingLive ++ [entry]
    pendingLiveBytes := s.pendingLiveBytes + entry.bytes }

/-- `#offerLiveFrame`. -/
def offerLiveFrame (o : Options) (s : Subscriber) (frame : LiveFrame) (replacement : Bool) :
    Subscriber :=
  let bytes := o.liveFrameBytes frame
  let s := { s with offeredLive := s.offeredLive ++ [frame] }
  if frame.afterSequence ≤ s.queuedThrough then sendLive o s frame bytes replacement
  else if replacement = false ∧ (o.maxLiveBytes : Int) < s.pendingLiveBytes + bytes then s
  else park s ⟨bytes, frame, replacement⟩

/-- What `#releaseLive` does with one held frame. -/
def releaseOne (o : Options) (s : Subscriber) (entry : HeldFrame) : Subscriber :=
  if entry.frame.afterSequence ≤ s.queuedThrough then
    sendLive o s entry.frame entry.bytes entry.replacement
  else park s entry

def releaseLive (o : Options) (s : Subscriber) : Subscriber :=
  s.pendingLive.foldl (releaseOne o) { s with pendingLive := [], pendingLiveBytes := 0 }

def scheduleGapFill (s : Subscriber) : Subscriber :=
  if s.pending = [] then { s with gapTimer := false }
  else if s.filling.isSome then s
  else { s with gapTimer := true }

def drain (o : Options) (s : Subscriber) : Subscriber :=
  if s.state ≠ .live then s
  else
    let (s, batch) := takeContiguous s
    scheduleGapFill (releaseLive o (if batch = [] then s else sendEvents o s batch))

/-! ## Offers -/

def offer (o : Options) (s : Subscriber) (event : AgentEvent) : Subscriber :=
  if s.state = .closed ∨ event.sequence ≤ s.queuedThrough then s
  else if s.state = .synchronizing then
    if o.maxBufferedEvents ≤ s.syncBuffer.length ∨
        (o.maxBufferedBytes : Int) < s.syncBufferedBytes + o.eventBytes event then
      resync s .bufferOverflow
    else { s with
      syncBuffer := s.syncBuffer ++ [event]
      syncBufferedBytes := s.syncBufferedBytes + o.eventBytes event }
  else
    match hold o s event with
    | (s, true) => drain o s
    | (s, false) => s

def offerLive (o : Options) (s : Subscriber) (frame : LiveFrame) : Subscriber :=
  if s.state ≠ .live then s else offerLiveFrame o s frame false

/-- `#syncNotices` once a notice is held; one of its type keeps its place. -/
def holdNotice : List WorkspaceNotice → WorkspaceNotice → List WorkspaceNotice
  | [], next => [mergeWorkspaceNotices none next]
  | held :: rest, next =>
    if sameType held next then mergeWorkspaceNotices (some held) next :: rest
    else held :: holdNotice rest next

def enqueueMessage (o : Options) (s : Subscriber) (message : QueuedMessage) : Subscriber :=
  match s.state with
  | .synchronizing =>
    match message with
    | .notice notice => { s with syncNotices := holdNotice s.syncNotices notice }
    | .viewer _ bytes =>
      if (o.maxBufferedBytes : Int) < s.viewerBufferedBytes + bytes ∨
          o.maxBufferedEvents ≤ s.syncViewerMessages.length then
        resync s .bufferOverflow
      else { s with
        viewerBufferedBytes := s.viewerBufferedBytes + bytes
        syncViewerMessages := s.syncViewerMessages ++ [message] }
    | .other _ => s
  | .live => addJob s (.message message)
  | .closed => s

/-! ## Synchronizing -/

/-- `synchronize` once nothing is buffered: it goes live. -/
def goLive (o : Options) (s : Subscriber) (liveFrames : List LiveFrame) : Subscriber :=
  let s := send o s (.synchronized s.queuedThrough)
  let s := { s with sendTail := [⟨.synchronized, .sending []⟩], state := .live, sync := .ended }
  drain o (liveFrames.foldl (fun s frame => offerLiveFrame o s frame true) s)

/-- The events `synchronize` has buffered, held; false when a bound was exceeded. -/
def holdBuffered (o : Options) : Subscriber → List AgentEvent → Subscriber × Bool
  | s, [] => (s, true)
  | s, event :: rest =>
    if s.queuedThrough < event.sequence then
      match hold o s event with
      | (s, true) => holdBuffered o s rest
      | (s, false) => (s, false)
    else holdBuffered o s rest

/-- The size of a viewer message `synchronize` takes from its queue. -/
def viewerBytes : QueuedMessage → Nat
  | .viewer _ bytes => bytes
  | _ => 0

/-- `synchronize` with no event to send, up to its next wait. -/
def syncQuiet (o : Options) (s : Subscriber) (liveFrames : List LiveFrame) : Subscriber :=
  match s.syncNotices with
  | notice :: rest =>
    -- A notice that names nothing sends nothing; `notices []` goes on at once.
    match wireNotices notice with
    | [] => { s with syncNotices := rest, sync := .notices [] }
    | first :: others =>
      send o { s with syncNotices := rest, sync := .notices others } (.queued (.notice first))
  | [] =>
    match s.syncViewerMessages with
    | message :: rest =>
      send o { s with
        syncViewerMessages := rest
        viewerBufferedBytes := s.viewerBufferedBytes - viewerBytes message
        sync := .viewerMessage } (.queued message)
    | [] => goLive o s liveFrames

/-- The loop of `synchronize`, from its condition to its next wait. -/
def syncLoop (o : Options) (s : Subscriber) (liveFrames : List LiveFrame) : Subscriber :=
  if s.state ≠ .synchronizing then { s with sync := .ended }
  else
    match holdBuffered o { s with syncBuffer := [] } s.syncBuffer with
    | (s, false) => { s with sync := .ended }
    | (s, true) =>
      let (s, batch) := takeContiguous { s with syncBufferedBytes := 0 }
      if batch = [] then syncQuiet o s liveFrames
      else
        match boundedEventBatches o batch with
        | none => close { s with sync := .ended }
        | some [] => { s with sync := .batches [] }
        | some (first :: rest) => send o { s with sync := .batches rest } (.events first)

/-- `synchronize` from its next message, or from the viewer's snapshot. -/
def syncMessages (o : Options) (s : Subscriber) (messages : List HostMessage) (cursor : Nat) :
    Subscriber :=
  match messages with
  | [] => { s with queuedThrough := cursor, sync := .viewerSnapshot }
  | first :: rest => send o { s with sync := .messages rest cursor } first

/-! ## Subscribing -/

/-- A window of committed events: what `eventsAfterWindow` resolves with. -/
structure Window where
  events : List AgentEvent
  hasMore : Bool
  scannedThrough : Nat
  byteCount : Nat
deriving DecidableEq, Repr

/-- The loop of `subscribe` over the log, from its condition to its next read. -/
def replayLoop (o : Options) (s : Subscriber) (cursor head replayBytes replayEvents : Nat)
    (messages : List HostMessage) : Subscriber :=
  if cursor < head then
    { s with sync := .replay cursor head replayBytes replayEvents messages }
  else syncMessages o s messages cursor

/-- What `subscribe` does with a window it has read. -/
def replayWindow (o : Options) (s : Subscriber) (cursor head replayBytes replayEvents : Nat)
    (messages : List HostMessage) (window : Window) : Subscriber :=
  let replayBytes := replayBytes + window.byteCount
  let replayEvents := replayEvents + window.events.length
  let expired := { resync s .cursorExpired with sync := .ended }
  if window.scannedThrough ≤ cursor then expired
  else if o.maxReplayEvents < replayEvents ∨ o.maxReplayBytes < replayBytes then expired
  else
    match boundedEventBatches o window.events with
    | none => close { s with sync := .ended }
    | some batches =>
      if window.hasMore = false ∧ window.scannedThrough < head then expired
      else replayLoop o s window.scannedThrough head replayBytes replayEvents
        (messages ++ batches.map .events)

/-! ## Filling gaps -/

/-- The loop of `#fillGap`, from its condition to its next read, or to its end. -/
def fillLoop (o : Options) (s : Subscriber) (through : Nat) : Subscriber :=
  if s.state = .live ∧ s.queuedThrough < through then
    { s with filling := some ⟨s.queuedThrough, through⟩ }
  else drain o { discardDelivered s with filling := none }

def fillGap (o : Options) (s : Subscriber) : Subscriber :=
  if s.state ≠ .live then s
  else
    match (s.pending.map fun held => held.event.sequence).min? with
    | none => s
    | some lowest => fillLoop o s (lowest - 1)

/-- The events of a window `#fillGap` has read, queued where they are new. -/
def queueFresh (o : Options) (s : Subscriber) (fill : Fill) (window : Window) : Subscriber :=
  let fresh := window.events.filter fun event =>
    s.queuedThrough < event.sequence ∧ event.sequence ≤ fill.through
  match fresh.getLast? with
  | none => s
  | some last => { sendEvents o s fresh with queuedThrough := last.sequence }

/-- What `#fillGap` does with a window it has read. -/
def fillWindow (o : Options) (s : Subscriber) (fill : Fill) (window : Window) : Subscriber :=
  let s := queueFresh o s fill window
  if window.hasMore = false then
    drain o { discardDelivered { s with queuedThrough := max s.queuedThrough fill.through } with
      filling := none }
  else
    let s := { s with queuedThrough := max s.queuedThrough window.scannedThrough }
    if s.queuedThrough ≤ fill.cursor then { resync s .cursorExpired with filling := none }
    else fillLoop o s fill.through

/-! ## The jobs of `#sendTail` -/

/-- The message a job sends at once, if it does. -/
def jobSends (s : Subscriber) : JobBody → Option HostMessage
  | .live frame _ => if s.state = .live then some (.live frame frame.afterSequence) else none
  | .message message => if s.state = .live then some (.queued message) else none
  | _ => none

/-- The first job of `#sendTail` begins. -/
def startJob (o : Options) (s : Subscriber) (body : JobBody) (rest : List Job) : Subscriber :=
  let settled := { s with sendTail := ⟨body, .settled⟩ :: rest }
  match body with
  | .events events =>
    if s.state = .closed then settled
    else match boundedEventBatches o events with
      | none => failDelivery settled
      | some [] => settled
      | some (first :: batches) =>
        send o { s with sendTail := ⟨body, .sending batches⟩ :: rest } (.events first)
  | _ =>
    match jobSends s body with
    | some message => send o { s with sendTail := ⟨body, .sending []⟩ :: rest } message
    | none => settled

/-- The `finally` of a job. -/
def finishJob (o : Options) (s : Subscriber) (body : JobBody) (rest : List Job) : Subscriber :=
  match body with
  | .events events => { s with
    sendTail := rest
    queuedEvents := s.queuedEvents - events.length
    queuedBytes := s.queuedBytes - totalBytes o events }
  | .live _ bytes => { s with sendTail := rest, liveInFlightBytes := s.liveInFlightBytes - bytes }
  | _ => { s with sendTail := rest }

/-- A job's send rejects. That of `host.synchronized` is caught by the job after
it, or else by `subscribe`. -/
def jobSendRejects (s : Subscriber) (body : JobBody) (rest : List Job) : Subscriber :=
  let s := { s with sendTail := ⟨body, .settled⟩ :: rest }
  if body = .synchronized ∧ rest = [] then close s else failDelivery s

/-! ## The machine -/

inductive Action
  | membershipResolves (isActive : Bool)
  | snapshotResolves (sequence : Nat)
  | headResolves (head : Nat)
  | replayResolves (window : Window)
  /-- A read of `subscribe`, or the viewer's snapshot, rejects. -/
  | subscribeRejects
  | syncSendResolves (liveFrames : List LiveFrame)
  | syncSendRejects
  | viewerSnapshotSends (message : QueuedMessage)
  | viewerSnapshotResolves (liveFrames : List LiveFrame)
  | offer (event : AgentEvent)
  | offerLive (frame : LiveFrame)
  | enqueueMessage (message : QueuedMessage)
  | resync (reason : ResyncReason)
  | close
  | gapTimerFires
  | fillResolves (window : Window)
  /-- The read rejects, or times out. -/
  | fillRejects
  | jobStarts
  | jobSendResolves
  | jobSendRejects
  | jobFinishes
  | resyncSettles
deriving DecidableEq, Repr

def syncSendResolves (o : Options) (s : Subscriber) (liveFrames : List LiveFrame) :
    Option Subscriber :=
  match s.sync with
  | .messages rest cursor => some (syncMessages o s rest cursor)
  | .batches (next :: rest) => some (send o { s with sync := .batches rest } (.events next))
  | .notices (next :: rest) =>
    some (send o { s with sync := .notices rest } (.queued (.notice next)))
  | .batches [] | .notices [] | .viewerMessage => some (syncLoop o s liveFrames)
  | _ => none

/-- Whether `synchronize` waits for a send. -/
def syncSends : SyncPhase → Bool
  | .messages _ _ | .batches _ | .notices _ | .viewerMessage => true
  | _ => false

/-- Whether `subscribe` waits for a read, or for the viewer's snapshot. -/
def subscribeReads : SyncPhase → Bool
  | .membership | .snapshot | .head | .replay .. | .viewerSnapshot => true
  | _ => false

def step (o : Options) (s : Subscriber) : Action → Option Subscriber
  | .membershipResolves isActive =>
    if s.sync = .membership then
      some (if isActive then { s with sync := if s.start = 0 then .snapshot else .head }
        else close { s with sync := .ended })
    else none
  | .snapshotResolves sequence =>
    if s.sync = .snapshot then
      some (syncMessages o { s with start := sequence } [.snapshot sequence] sequence)
    else none
  | .headResolves head =>
    if s.sync = .head then
      some (if head < s.start then { resync s .cursorAhead with sync := .ended }
        else replayLoop o s s.start head 0 0 [])
    else none
  | .replayResolves window =>
    match s.sync with
    | .replay cursor head replayBytes replayEvents messages =>
      some (replayWindow o s cursor head replayBytes replayEvents messages window)
    | _ => none
  | .subscribeRejects =>
    if subscribeReads s.sync then some (close { s with sync := .ended }) else none
  | .syncSendResolves liveFrames => syncSendResolves o s liveFrames
  | .syncSendRejects => if syncSends s.sync then some (close { s with sync := .ended }) else none
  | .viewerSnapshotSends message =>
    if s.sync = .viewerSnapshot then some (sinkSend s (.queued message)) else none
  | .viewerSnapshotResolves liveFrames =>
    if s.sync = .viewerSnapshot then some (syncLoop o s liveFrames) else none
  | .offer event => some (offer o s event)
  | .offerLive frame => some (offerLive o s frame)
  | .enqueueMessage message => some (enqueueMessage o s message)
  | .resync reason => some (resync s reason)
  | .close => some (close s)
  | .gapTimerFires => if s.gapTimer then some (fillGap o { s with gapTimer := false }) else none
  | .fillResolves window =>
    match s.filling with
    | some fill => some (fillWindow o s fill window)
    | none => none
  | .fillRejects =>
    if s.filling.isSome then some { resync s .cursorExpired with filling := none } else none
  | .jobStarts =>
    match s.sendTail with
    | ⟨body, .waiting⟩ :: rest => some (startJob o s body rest)
    | _ => none
  | .jobSendResolves =>
    match s.sendTail with
    | ⟨body, .sending []⟩ :: rest => some { s with sendTail := ⟨body, .settled⟩ :: rest }
    | ⟨body, .sending (next :: batches)⟩ :: rest =>
      some (send o { s with sendTail := ⟨body, .sending batches⟩ :: rest } (.events next))
    | _ => none
  | .jobSendRejects =>
    match s.sendTail with
    | ⟨body, .sending _⟩ :: rest => some (jobSendRejects s body rest)
    | _ => none
  | .jobFinishes =>
    match s.sendTail with
    | ⟨body, .settled⟩ :: rest => some (finishJob o s body rest)
    | _ => none
  | .resyncSettles =>
    if s.resyncing then some (sinkClose { s with resyncing := false } 4009) else none

def machine (o : Options) : Machine Subscriber Action := ⟨step o⟩

end Opensteer.Realtime
