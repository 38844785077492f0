import Mathlib.Algebra.Order.Ring.Int
import Opensteer.Framework.Machine
import Opensteer.LiveProgress.Registry

/-!
# The Runner's buffer of live progress

`LiveProgressBuffer` of `apps/runner/src/runtime/live-progress.ts`, with the
Host's registry it sends to. An action of `machine` is one synchronous stretch
of the buffer's code: a call of it, its timer, or what follows when an awaited
promise settles. A batch is applied by the registry when it is handed to `send`,
and the durable event that ends a stream is observed there when the buffer
forgets the stream.
-/

namespace Opensteer.LiveProgress

/-- Bytes one live frame may carry. -/
def liveFrameMaxBytes : Nat := 512 * 1024

structure LiveStream where
  key : LiveStreamKey
  /-- Units received but not yet sent. -/
  pending : Text
  length : Nat
  /-- Whether the next frame replaces the stream whole. -/
  resync : Bool
  tail : Text
  /-- All units received, which the buffer does not keep. -/
  text : Text
deriving DecidableEq

/-- How far a job of `#tail` is: its sends have not begun, or one of them has not
settled, with items to go on with, or only its `finally` is left. -/
inductive JobPhase
  | waiting
  | sending (next : List LiveItem)
  | settled
deriving DecidableEq, Repr

/-- The items of a `#sendBatches`. -/
structure Job where
  items : List LiveItem
  phase : JobPhase
deriving DecidableEq, Repr

/-- A call of `flush` that has not returned: how many jobs it still waits for,
whether it flushes again then, and the stream its caller completes after it. -/
structure Flush where
  jobs : Nat
  again : Bool
  completes : Option LiveStreamKey
deriving DecidableEq, Repr

structure BufferOptions where
  maxInFlightBytes : Nat
  maxPendingBytes : Nat
  maxSentBytes : Nat
  /-- `Buffer.byteLength(text, "utf8")`. -/
  utf8Bytes : Text → Nat
  itemBytes : LiveItem → Nat

structure LiveProgressBuffer where
  streams : OrderedMap String LiveStream
  pendingBytes : Int
  inFlightBytes : Int
  sentBytes : Nat
  exhausted : Bool
  closed : Bool
  timer : Bool
  tail : List Job
  flushes : List Flush
deriving DecidableEq

def LiveProgressBuffer.empty : LiveProgressBuffer where
  streams := .empty
  pendingBytes := 0
  inFlightBytes := 0
  sentBytes := 0
  exhausted := false
  closed := false
  timer := false
  tail := []
  flushes := []

/-! ## Taking what is unsent -/

/-- The appends the loop of `#takePending` cuts pending text into, at most `fuel`
of them: each takes some of it, so its length is enough. -/
def cutAppends (key : LiveStreamKey) : Nat → Nat → Text → List LiveItem
  | 0, _, _ => []
  | fuel + 1, at_, rest =>
    if rest = [] then []
    else
      let cut := if rest.length ≤ liveAppendTextMaxLength then rest.length
        else surrogateSafeCut rest liveAppendTextMaxLength
      .append key at_ (rest.take cut) :: cutAppends key fuel (at_ + (rest.take cut).length)
        (rest.drop (rest.take cut).length)

def replaceItem (s : LiveStream) : LiveItem := .replace s.key s.length s.tail

/-- What `#takePending` takes of a stream. -/
def pendingItems (s : LiveStream) : List LiveItem :=
  if s.resync then [replaceItem s]
  else cutAppends s.key s.pending.length (s.length - s.pending.length) s.pending

/-- A stream of which everything is taken. -/
def taken (s : LiveStream) : LiveStream := { s with resync := false, pending := [] }

/-- `#takePending`. -/
def takePending (s : LiveProgressBuffer) : LiveProgressBuffer × List LiveItem :=
  ({ s with streams := s.streams.mapValues taken, pendingBytes := 0 },
    s.streams.values.flatMap pendingItems)

def hasUnsent (s : LiveProgressBuffer) : Bool :=
  !s.closed && !s.exhausted && s.streams.values.any fun stream => stream.resync || stream.pending ≠ []

def schedule (s : LiveProgressBuffer) : LiveProgressBuffer :=
  if s.closed then s else { s with timer := true }

/-! ## Flushing -/

/-- A stream whose unsent text is dropped is replaced whole. -/
def dropPending (s : LiveStream) : LiveStream :=
  if s.pending = [] then s else { s with pending := [], resync := true }

def totalBytes (o : BufferOptions) (items : List LiveItem) : Nat := (items.map o.itemBytes).sum

/-- `flush`: the jobs its promise waits for, and whether it flushes again then. -/
def flush (o : BufferOptions) (s : LiveProgressBuffer) : LiveProgressBuffer × Nat × Bool :=
  let s := { s with timer := false }
  if (o.maxInFlightBytes : Int) ≤ s.inFlightBytes then
    ({ s with streams := s.streams.mapValues dropPending, pendingBytes := 0 }, s.tail.length, true)
  else
    let (s, items) := takePending s
    if items = [] then (s, s.tail.length, false)
    else
      ({ s with
          inFlightBytes := s.inFlightBytes + totalBytes o items
          tail := s.tail ++ [⟨items, .waiting⟩] }, s.tail.length + 1, false)

/-- A call of `flush`, remembered while something is to happen after it. -/
def callFlush (o : BufferOptions) (s : LiveProgressBuffer) (completes : Option LiveStreamKey) :
    LiveProgressBuffer :=
  let (s, jobs, again) := flush o s
  if again = false ∧ completes = none then s
  else { s with flushes := s.flushes ++ [⟨jobs, again, completes⟩] }

/-! ## Calls -/

def append (o : BufferOptions) (s : LiveProgressBuffer) (key : LiveStreamKey) (text : Text) :
    LiveProgressBuffer :=
  if s.closed ∨ text = [] then s
  else
    let id := liveStreamKeyId key
    let stream := (s.streams.get id).getD ⟨key, [], 0, false, [], []⟩
    let stream := { stream with
      length := stream.length + text.length
      tail := appendLiveStreamTail stream.tail text
      text := stream.text ++ text }
    if s.exhausted then { s with streams := s.streams.set id stream }
    else
      let s :=
        if stream.resync then { s with streams := s.streams.set id stream }
        else { s with
          streams := s.streams.set id { stream with pending := stream.pending ++ text }
          pendingBytes := s.pendingBytes + o.utf8Bytes text }
      if (o.maxPendingBytes : Int) ≤ s.pendingBytes then callFlush o s none else schedule s

def complete (o : BufferOptions) (s : LiveProgressBuffer) (key : LiveStreamKey) :
    LiveProgressBuffer :=
  match s.streams.get (liveStreamKeyId key) with
  | none => s
  | some stream => { s with
      pendingBytes := s.pendingBytes - o.utf8Bytes stream.pending
      streams := s.streams.delete (liveStreamKeyId key) }

def resynchronize (o : BufferOptions) (s : LiveProgressBuffer) : LiveProgressBuffer :=
  if s.closed ∨ s.exhausted then s
  else callFlush o { s with
    streams := s.streams.mapValues fun stream => { stream with pending := [], resync := true }
    pendingBytes := 0 } none

def close (s : LiveProgressBuffer) : LiveProgressBuffer :=
  { s with closed := true, timer := false, streams := .empty, pendingBytes := 0 }

/-! ## Sending -/

/-- The phase after a batch is handed to `send`, with `next` to go on with. -/
def afterBatch (batch next : List LiveItem) : JobPhase :=
  if batch = [] then .settled else .sending next

/-- `#sendBatches` up to its next wait: the batch it hands to `send`, if any. -/
def batchesLoop (o : BufferOptions) : LiveProgressBuffer → List LiveItem → Nat → List LiveItem →
    LiveProgressBuffer × JobPhase × List LiveItem
  | s, batch, _, [] => (s, afterBatch batch [], batch)
  | s, batch, batchBytes, item :: rest =>
    if s.exhausted ∨ s.closed then (s, .settled, [])
    else if o.maxSentBytes < s.sentBytes + o.itemBytes item then
      ({ s with
          exhausted := true
          streams := s.streams.mapValues fun stream => { stream with pending := [] }
          pendingBytes := 0 }, afterBatch batch [], batch)
    else if batch ≠ [] ∧ (liveProgressMaxItems ≤ batch.length ∨
        liveFrameMaxBytes < batchBytes + o.itemBytes item) then
      (s, .sending (item :: rest), batch)
    else
      batchesLoop o { s with sentBytes := s.sentBytes + o.itemBytes item } (batch ++ [item])
        (batchBytes + o.itemBytes item) rest

/-- A job goes on from its phase: at first, or when its last send has settled. -/
def runJob (o : BufferOptions) (s : LiveProgressBuffer) (job : Job) :
    LiveProgressBuffer × JobPhase × List LiveItem :=
  match job.phase with
  | .waiting => batchesLoop o s [] 0 job.items
  | .sending (item :: rest) =>
    batchesLoop o { s with sentBytes := s.sentBytes + o.itemBytes item } [item] (o.itemBytes item)
      rest
  | .sending [] | .settled => (s, .settled, [])

/-- The `finally` of a job, which those who wait for it see. -/
def finishJob (o : BufferOptions) (s : LiveProgressBuffer) (job : Job) (rest : List Job) :
    LiveProgressBuffer :=
  let s := { s with
    inFlightBytes := s.inFlightBytes - totalBytes o job.items
    tail := rest
    flushes := s.flushes.map fun flush => { flush with jobs := flush.jobs - 1 } }
  if hasUnsent s then schedule s else s

/-! ## The machine -/

structure Options where
  buffer : BufferOptions
  host : RegistryOptions
  runId : RunId
  threadId : ThreadId
  workspaceId : WorkspaceId

structure Link where
  buffer : LiveProgressBuffer
  host : LiveRunRegistry
deriving DecidableEq

inductive Action
  | append (key : LiveStreamKey) (text : Text)
  | flush
  /-- A caller flushes, to complete the stream once that has settled. -/
  | flushToComplete (key : LiveStreamKey)
  | timerFires
  | resynchronize
  | close
  /-- A flush that found the connection behind flushes again. -/
  | flushesAgain (i : Nat)
  /-- The durable event of the given sequence ends a stream, and the caller whose
  flush has settled completes it. -/
  | completes (i sequence now : Nat)
  /-- The first job begins, or goes on when a send of it settles. -/
  | jobStarts (now : Nat)
  | sendResolves (now : Nat)
  | jobFinishes
deriving DecidableEq, Repr

def eventOf (o : Options) (sequence : Nat) (data : EventData) : AgentEvent :=
  ⟨sequence, o.workspaceId, o.threadId, some o.runId, data⟩

/-- The event that ends a stream. -/
def completion : LiveStreamKey → EventData
  | .assistant => .assistantMessage
  | .reasoning blockId => .reasoningCompleted blockId
  | .tool callId => .toolCompleted callId

/-- A Run the Host has learned, with nothing sent of it. -/
def Link.initial (o : Options) : Link where
  buffer := .empty
  host := observeCommitted o.host 0 .empty [eventOf o 1 (.other "run.started")]

/-- The batch is handed to `send`, and the Host applies it. -/
def deliver (o : Options) (now : Nat) (s : Link) (batch : List LiveItem) : Link :=
  if batch = [] then s
  else { s with host := (apply o.host now s.host ⟨o.runId, o.threadId, o.workspaceId, batch⟩).1 }

/-- The first job goes on. -/
def goOn (o : Options) (now : Nat) (s : Link) (job : Job) (rest : List Job) : Link :=
  let (buffer, phase, batch) := runJob o.buffer s.buffer job
  deliver o now { s with buffer := { buffer with tail := ⟨job.items, phase⟩ :: rest } } batch

def step (o : Options) (s : Link) : Action → Option Link
  | .append key text => some { s with buffer := append o.buffer s.buffer key text }
  | .flush => some { s with buffer := callFlush o.buffer s.buffer none }
  | .flushToComplete key => some { s with buffer := callFlush o.buffer s.buffer (some key) }
  | .timerFires =>
    if s.buffer.timer then some { s with buffer := callFlush o.buffer s.buffer none } else none
  | .resynchronize => some { s with buffer := resynchronize o.buffer s.buffer }
  | .close => some { s with buffer := close s.buffer }
  | .flushesAgain i =>
    match s.buffer.flushes[i]? with
    | some ⟨0, true, completes⟩ =>
      let buffer := { s.buffer with flushes := s.buffer.flushes.eraseIdx i }
      some { s with buffer := callFlush o.buffer buffer completes }
    | _ => none
  | .completes i sequence now =>
    match s.buffer.flushes[i]? with
    | some ⟨0, false, some key⟩ =>
      let buffer := { s.buffer with flushes := s.buffer.flushes.eraseIdx i }
      some ⟨complete o.buffer buffer key,
        observeCommitted o.host now s.host [eventOf o sequence (completion key)]⟩
    | _ => none
  | .jobStarts now =>
    match s.buffer.tail with
    | ⟨items, .waiting⟩ :: rest => some (goOn o now s ⟨items, .waiting⟩ rest)
    | _ => none
  | .sendResolves now =>
    match s.buffer.tail with
    | ⟨items, .sending next⟩ :: rest => some (goOn o now s ⟨items, .sending next⟩ rest)
    | _ => none
  | .jobFinishes =>
    match s.buffer.tail with
    | ⟨items, .settled⟩ :: rest =>
      some { s with buffer := finishJob o.buffer s.buffer ⟨items, .settled⟩ rest }
    | _ => none

def machine (o : Options) : Machine Link Action := ⟨step o⟩

end Opensteer.LiveProgress
