import Mathlib.Algebra.Order.Ring.Int
import Mathlib.Data.Finset.Card
import Opensteer.Core.Ids
import Opensteer.Framework.Machine
import Opensteer.Framework.OrderedMap

/-!
# The Runner's runtime

What `apps/runner/src/runtime/runtime.ts` keeps of the Runs a Runner executes: their
events, numbered and journalled by `#emit`, the one chain of sends each Run has
(`#pumpJournal`), the connections the sends are on, and the Runs that have ended with
events the Host has not acknowledged. An action of `Runtime.machine` is a call of one
of these, or the end of something one of them awaits.

Of the Host, `ActiveRun.committed` is what it has committed of a Run: its attach
answers and acknowledgements say no more.
-/

namespace Opensteer.RunnerRuntime

def maxJournalBytes : Nat := 32 * 1024 * 1024
def settledJournalRetentionMs : Nat := 24 * 60 * 60000
def maxSettledJournalBytes : Nat := 64 * 1024 * 1024
def pendingAgentEventMaxSerializedBytes : Nat := 480 * 1024
def terminalEventReserveBytes : Nat := pendingAgentEventMaxSerializedBytes
def requestCancellationReserveBytes : Nat := 2048

/-- The bounds of `boundedPositiveInteger`. -/
structure Options where
  maxRunEvents : Nat
  two_le_maxRunEvents : 2 ≤ maxRunEvents
  maxRunEventBytes : Nat
  le_maxRunEventBytes : terminalEventReserveBytes * 2 ≤ maxRunEventBytes

/-! ## Events -/

/-- The `type` of a durable event, with the `data` that `#emit` reads. -/
inductive HarnessEvent
  | requestOpened (requestId : RequestId)
  | requestCancelled (requestId : RequestId)
  | runUsage
  | runCompleted | runFailed | runInterrupted
  | other (type : String)
deriving DecidableEq, Repr

/-- `terminalEventTypes`. -/
def HarnessEvent.isTerminal : HarnessEvent → Bool
  | .runCompleted | .runFailed | .runInterrupted => true
  | _ => false

/-- The Requests pending after an event, of those before it. -/
def HarnessEvent.pendingAfter (pending : Finset RequestId) : HarnessEvent → Finset RequestId
  | .requestOpened requestId => insert requestId pending
  | .requestCancelled requestId => pending.erase requestId
  | _ => pending

/-- A `PendingAgentEvent`. -/
structure PendingAgentEvent where
  ordinal : Nat
  event : HarnessEvent
deriving DecidableEq, Repr

structure JournalEntry where
  bytes : Nat
  event : PendingAgentEvent
deriving DecidableEq, Repr

/-! ## A Run -/

/-- A call of `#pumpJournal`, until its sends are done. -/
structure Pump where
  /-- The Requests that the emit awaiting it will say are pending. -/
  pendingAfter : Option (Finset RequestId)
  /-- `attach` awaits it, to release a settled Run. -/
  releases : Bool
deriving DecidableEq

/-- What the oldest pump awaits: nothing yet, or a send on a connection. -/
inductive Sending
  | idle
  | sessionBound (connection : Nat)
  | event (connection ordinal : Nat)
deriving DecidableEq, Repr

structure RunJournal where
  events : OrderedMap Nat JournalEntry
  bytes : Nat
  /-- Whether there is a session binding to send. -/
  sessionBound : Bool
  sessionBoundSent : Bool
  /-- The ordinal after `sentThrough`. -/
  sendNext : Nat
  terminal : Bool
  /-- `sending`: the pumps of the chain that are not done, oldest first. -/
  pumps : List Pump
  sending : Sending
  /-- The ordinal after the last that was acknowledged or that an attach answer covered. -/
  covered : Nat
deriving DecidableEq

inductive SendStatus
  | pending | sent | failed
deriving DecidableEq, Repr

/-- A `runner.event` given to a connection. -/
structure Send where
  connection : Nat
  ordinal : Nat
  status : SendStatus
deriving DecidableEq, Repr

/-- A send is done, and how. -/
def Send.settle (ok : Bool) (s : Send) : Send :=
  if s.status = .pending then { s with status := if ok then .sent else .failed } else s

structure ActiveRun where
  runId : RunId
  bindingGeneration : Nat
  firstOrdinal : Nat
  journal : RunJournal
  nextOrdinal : Nat
  emittedEvents : Nat
  emittedEventBytes : Nat
  pendingRequestIds : Finset RequestId
  revoked : Bool
  shutdown : Bool
  /-- `interruptionCause` is set. -/
  leaseLost : Bool
  settledAt : Nat
  /-- What the emits whose pump is done will say is pending, oldest first. -/
  returning : List (Finset RequestId)
  /-- Every event recorded. -/
  recorded : List JournalEntry
  /-- The Requests opened, and neither cancelled nor resolved since. -/
  outstanding : Finset RequestId
  /-- Every `runner.event` given to a connection. -/
  sends : List Send
  /-- The ordinal it resumed at on each connection, or was admitted with. -/
  starts : OrderedMap Nat Nat
  /-- The connections that a send of it failed on. -/
  failedOn : List Nat
  /-- The ordinal after the last the Host committed. -/
  committed : Nat
deriving DecidableEq

inductive Refusal
  | schema | budget | journal
deriving DecidableEq, Repr

inductive Emitted
  | ignored
  | refused (refusal : Refusal)
  | recorded (active : ActiveRun)

def RunJournal.settled (journal : RunJournal) : Bool :=
  journal.events.size = 0 && !journal.sessionBound

namespace ActiveRun

/-- A Run just admitted. -/
def start (runId : RunId) (bindingGeneration firstOrdinal connection : Nat) : ActiveRun where
  runId := runId
  bindingGeneration := bindingGeneration
  firstOrdinal := firstOrdinal
  journal := {
    events := .empty, bytes := 0, sessionBound := false, sessionBoundSent := false
    sendNext := firstOrdinal, terminal := false, pumps := [], sending := .idle
    covered := firstOrdinal }
  nextOrdinal := firstOrdinal
  emittedEvents := 0
  emittedEventBytes := 0
  pendingRequestIds := ∅
  revoked := false
  shutdown := false
  leaseLost := false
  settledAt := 0
  returning := []
  recorded := []
  outstanding := ∅
  sends := []
  starts := OrderedMap.empty.set connection firstOrdinal
  failedOn := []
  committed := firstOrdinal

/-- The emits that have recorded their event and not said yet what is pending. -/
def inProgress (a : ActiveRun) : List (Finset RequestId) :=
  a.returning ++ a.journal.pumps.filterMap Pump.pendingAfter

def record (a : ActiveRun) (event : HarnessEvent) (bytes : Nat) : ActiveRun :=
  let entry : JournalEntry := ⟨bytes, ⟨a.nextOrdinal, event⟩⟩
  { a with
    nextOrdinal := a.nextOrdinal + 1
    emittedEvents := a.emittedEvents + 1
    emittedEventBytes := a.emittedEventBytes + bytes
    journal := { a.journal with
      events := a.journal.events.set a.nextOrdinal entry
      bytes := a.journal.bytes + bytes
      terminal := a.journal.terminal || event.isTerminal
      pumps := a.journal.pumps ++ [⟨some (event.pendingAfter a.pendingRequestIds), false⟩] }
    recorded := a.recorded ++ [entry]
    outstanding := event.pendingAfter a.outstanding }

/-- The event as it is recorded: a Run whose lease was lost is interrupted. -/
def outcome (a : ActiveRun) (original : HarnessEvent) : HarnessEvent :=
  if a.leaseLost && original.isTerminal then .runInterrupted else original

/-- How many events a Run may have with this one, when `pending` Requests are left. A Run
that is ending still owes its usage and its terminal event after every other. -/
def eventLimit (o : Options) (event : HarnessEvent) (pending : Nat) : Int :=
  if event.isTerminal then o.maxRunEvents
  else if event = .runUsage then o.maxRunEvents - 1
  else o.maxRunEvents - 2 - pending

def byteLimit (o : Options) (event : HarnessEvent) (pending : Nat) : Int :=
  if event.isTerminal then o.maxRunEventBytes
  else o.maxRunEventBytes - terminalEventReserveBytes - pending * requestCancellationReserveBytes

def journalLimit (event : HarnessEvent) : Nat :=
  if event.isTerminal then maxJournalBytes else maxJournalBytes - terminalEventReserveBytes

/-- `#emit`, up to its pump, of an event that takes `bytes` when fitted and serialized. -/
def emit (o : Options) (a : ActiveRun) (original : HarnessEvent) (bytes : Nat) : Emitted :=
  if a.revoked || a.journal.terminal then .ignored
  else if a.shutdown && original.isTerminal then .ignored
  else
    let event := a.outcome original
    let pending := (event.pendingAfter a.pendingRequestIds).card
    if pendingAgentEventMaxSerializedBytes < bytes then .refused .schema
    else if eventLimit o event pending < (a.emittedEvents + 1 : Nat) ∨
        byteLimit o event pending < (a.emittedEventBytes + bytes : Nat) then .refused .budget
    else if journalLimit event < a.journal.bytes + bytes then .refused .journal
    else .recorded (a.record event bytes)

/-- An emit whose pump is done says what is pending. -/
def emitReturns (a : ActiveRun) : Option ActiveRun :=
  match a.returning with
  | [] => none
  | pending :: returning => some { a with returning, pendingRequestIds := pending }

/-- `#resolveRequest`, before the engine hears the answer. -/
def resolveRequest (a : ActiveRun) (requestId : RequestId) : ActiveRun :=
  { a with
    pendingRequestIds := a.pendingRequestIds.erase requestId
    outstanding := a.outstanding.erase requestId }

def addPump (a : ActiveRun) (pump : Pump) : ActiveRun :=
  { a with journal := { a.journal with pumps := a.journal.pumps ++ [pump] } }

/-! ### Sends -/

/-- The oldest pump is done. -/
def finish (a : ActiveRun) : ActiveRun :=
  match a.journal.pumps with
  | [] => a
  | pump :: pumps => { a with
    journal := { a.journal with pumps, sending := .idle }
    returning := a.returning ++ pump.pendingAfter.toList }

/-- The loop of `#pumpJournal`, up to the send it awaits. -/
def sendOn (a : ActiveRun) (connection : Option Nat) (on : Nat) : ActiveRun :=
  if connection ≠ some on || a.revoked then a.finish
  else
    match a.journal.events.get a.journal.sendNext with
    | none => a.finish
    | some _ => { a with
      journal := { a.journal with sending := .event on a.journal.sendNext }
      sends := a.sends ++ [⟨on, a.journal.sendNext, .pending⟩] }

/-- The oldest pump's turn comes. -/
def pumpStarts (a : ActiveRun) (connection : Option Nat) : Option ActiveRun :=
  if a.journal.sending ≠ .idle ∨ a.journal.pumps = [] then none
  else
    match connection with
    | none => some a.finish
    | some on =>
      if a.revoked then some a.finish
      else if a.journal.sessionBound && !a.journal.sessionBoundSent then
        some { a with journal := { a.journal with sending := .sessionBound on } }
      else some (a.sendOn connection on)

/-- The send that the oldest pump awaits settles. -/
def sendSettles (a : ActiveRun) (connection : Option Nat) (ok : Bool) : Option ActiveRun :=
  match a.journal.sending with
  | .idle => none
  | .sessionBound on =>
    if !ok then some (finish { a with failedOn := on :: a.failedOn })
    else if connection ≠ some on then some a.finish
    else
      let a := { a with journal := { a.journal with sessionBoundSent := true } }
      some (a.sendOn connection on)
  | .event on _ =>
    let a := { a with sends := a.sends.map (Send.settle ok) }
    if !ok then some (finish { a with failedOn := on :: a.failedOn })
    else if connection ≠ some on then some a.finish
    else
      let a := { a with journal := { a.journal with sendNext := a.journal.sendNext + 1 } }
      some (a.sendOn connection on)

end ActiveRun

/-! ## What the Host has -/

/-- The loop that forgets the events below an ordinal. -/
def RunJournal.discard (below : Nat) (journal : RunJournal) : RunJournal :=
  let journal := { journal with covered := max journal.covered below }
  journal.events.entries.foldl (fun journal e =>
    if e.1 < below then
      { journal with events := journal.events.delete e.1, bytes := journal.bytes - e.2.bytes }
    else journal) journal

/-- A Run that the attach answer on a connection names goes on there. -/
def ActiveRun.resume (a : ActiveRun) (connection nextOrdinal : Nat) : ActiveRun :=
  let journal := a.journal.discard nextOrdinal
  { a with
    journal := { journal with
      sendNext := nextOrdinal
      sessionBoundSent := false
      pumps := journal.pumps ++ [⟨none, true⟩] }
    starts := a.starts.set connection nextOrdinal }

/-! ## The runtime -/

structure Runtime where
  connection : Option Nat
  /-- How many connections were attached. -/
  connections : Nat
  /-- The executing and the ended Runs, which are in `actives`. -/
  runs : OrderedMap RunId Nat
  settledRuns : OrderedMap RunId Nat
  /-- Every execution of a Run there was. -/
  actives : OrderedMap Nat ActiveRun
  /-- How many were admitted. -/
  admitted : Nat
deriving DecidableEq

namespace Runtime

def initial : Runtime := ⟨none, 0, .empty, .empty, .empty, 0⟩

/-- `this.#runs.get(runId) ?? this.#settledRuns.get(runId)`. -/
def find (r : Runtime) (runId : RunId) : Option Nat := (r.runs.get runId).or (r.settledRuns.get runId)

def modify (r : Runtime) (i : Nat) (f : ActiveRun → ActiveRun) : Runtime :=
  { r with actives := r.actives.modify i f }

def isExecuting (r : Runtime) (i : Nat) (a : ActiveRun) : Bool := r.runs.get a.runId = some i

/-- `#admitExecution` accepts a Run. The Host dispatches one on a connection only once
it has answered which Runs continue there, so the connection is the current one. -/
def admits (r : Runtime) (runId : RunId) (bindingGeneration firstOrdinal : Nat) : Option Runtime :=
  match r.connection, r.runs.get runId with
  | some connection, none =>
    let superseded := ((r.settledRuns.get runId).bind r.actives.get).any fun settled =>
      settled.bindingGeneration < bindingGeneration
    some { r with
      settledRuns := if superseded then r.settledRuns.delete runId else r.settledRuns
      runs := r.runs.set runId r.admitted
      actives := r.actives.set r.admitted
        (ActiveRun.start runId bindingGeneration firstOrdinal connection)
      admitted := r.admitted + 1 }
  | _, _ => none

/-- `#releaseIfSettled`. -/
def releaseIfSettled (r : Runtime) (i : Nat) : Runtime :=
  match r.actives.get i with
  | none => r
  | some a =>
    if r.settledRuns.get a.runId = some i ∧ a.journal.settled then
      { r with settledRuns := r.settledRuns.delete a.runId }
    else r

/-- A Run's pump goes on, and a settled Run is released when its pump ends. -/
def advance (r : Runtime) (i : Nat) (f : ActiveRun → Option Nat → Option ActiveRun) : Option Runtime :=
  match r.actives.get i with
  | none => none
  | some a =>
    (f a r.connection).map fun a' =>
      let r' := { r with actives := r.actives.set i a' }
      if a'.journal.pumps.length < a.journal.pumps.length ∧ a.journal.pumps.head?.any Pump.releases then
        r'.releaseIfSettled i
      else r'

def revokeRun (r : Runtime) (runId : RunId) : Runtime :=
  let r := { r with settledRuns := r.settledRuns.delete runId }
  match r.runs.get runId with
  | none => r
  | some i => r.modify i fun a => { a with revoked := true }

/-- `revokeRuns`. -/
def revokeRuns (r : Runtime) (runIds : List RunId) : Runtime := runIds.foldl revokeRun r

/-- What an attach answer says of a Run: where it resumes, or that it is revoked. -/
def attachResult (connection : Nat) (r : Runtime) (result : RunId × Option Nat) : Runtime :=
  match r.find result.1, result.2 with
  | some i, some nextOrdinal => r.modify i fun a => a.resume connection nextOrdinal
  | _, _ => r

/-- `attach`, on a new connection. -/
def attach (r : Runtime) (results : List (RunId × Option Nat)) : Runtime :=
  let connection := r.connections
  let resumed := results.foldl (attachResult connection)
    { r with connection := some connection, connections := r.connections + 1 }
  let revoked := (results.filter fun result => result.2 = none).map Prod.fst
  let unanswered := (r.runs.keys ++ r.settledRuns.keys).filter fun runId =>
    runId ∉ results.map Prod.fst
  resumed.revokeRuns (revoked ++ unanswered)

/-- `acknowledge`, of one Run. -/
def acknowledgeRun (r : Runtime) (ack : RunId × Int × Bool) : Runtime :=
  match r.find ack.1 with
  | none => r
  | some i =>
    (r.modify i fun a =>
      let journal := a.journal.discard (ack.2.1 + 1).toNat
      { a with journal := { journal with sessionBound := journal.sessionBound && !ack.2.2 } }).releaseIfSettled i

def acknowledge (r : Runtime) (acks : List (RunId × Int × Bool)) : Runtime := acks.foldl acknowledgeRun r

/-- `connectionLost`. -/
def connectionLost (r : Runtime) (connection : Nat) : Runtime :=
  if r.connection = some connection then { r with connection := none } else r

/-- The execution ends, once its terminal event is recorded or it says no more. -/
def settles (r : Runtime) (i now : Nat) : Option Runtime :=
  match r.actives.get i with
  | none => none
  | some a =>
    if r.isExecuting i a && (a.journal.terminal || a.revoked || a.shutdown) then
      let r := { r with runs := r.runs.delete a.runId }
      if !a.revoked && !a.journal.settled then
        some { r.modify i (fun a => { a with settledAt := now }) with
          settledRuns := r.settledRuns.set a.runId i }
      else some r
    else none

/-- The bytes of the settled Runs' journals. -/
def settledBytes (r : Runtime) (settled : List (RunId × Nat)) : Nat :=
  (settled.map fun e => match r.actives.get e.2 with | some a => a.journal.bytes | none => 0).sum

/-- The loop that forgets settled Runs over the retention bounds, the oldest first. -/
def dropSettled (now : Nat) : List (RunId × Nat) → Nat → Runtime → Runtime
  | [], _, r => r
  | (runId, i) :: settled, bytes, r =>
    match r.actives.get i with
    | none => r
    | some a =>
      if now < a.settledAt + settledJournalRetentionMs ∧ bytes ≤ maxSettledJournalBytes then r
      else dropSettled now settled (bytes - a.journal.bytes)
        { r with settledRuns := r.settledRuns.delete runId }

/-- `#enforceLeases`, where the leases of the executions `lost` have run out. -/
def enforceLeases (r : Runtime) (now : Nat) (lost : List Nat) : Runtime :=
  let r := (r.runs.values.filter fun i => i ∈ lost).foldl
    (fun r i => r.modify i fun a => { a with leaseLost := true }) r
  dropSettled now r.settledRuns.entries (r.settledBytes r.settledRuns.entries) r

/-! ## The machine -/

inductive Action
  | admits (runId : RunId) (bindingGeneration firstOrdinal : Nat)
  | emits (i : Nat) (event : HarnessEvent) (bytes : Nat)
  | emitReturns (i : Nat)
  | resolvesRequest (i : Nat) (requestId : RequestId)
  | bindsSession (i : Nat)
  | flushes (i : Nat)
  | pumpStarts (i : Nat)
  | sendSettles (i : Nat) (ok : Bool)
  | attached (results : List (RunId × Option Nat))
  | acked (acks : List (RunId × Int × Bool))
  | connectionLost (connection : Nat)
  | revoked (runIds : List RunId)
  | shutsDown
  | settles (i now : Nat)
  | enforcesLeases (now : Nat) (lost : List Nat)
  | hostCommits (i : Nat)

/-- What is done to an execution that goes on. -/
def ofExecuting (r : Runtime) (i : Nat) (f : ActiveRun → Option ActiveRun) : Option Runtime :=
  match r.actives.get i with
  | none => none
  | some a =>
    if r.isExecuting i a then (f a).map fun a' => { r with actives := r.actives.set i a' } else none

/-- The Host says of each Run what it has committed. -/
def Answers (r : Runtime) (results : List (RunId × Option Nat)) : Prop :=
  ∀ result ∈ results, ∀ nextOrdinal ∈ result.2, ∀ i ∈ r.find result.1, ∀ a ∈ r.actives.get i,
    nextOrdinal = a.committed

def Acknowledges (r : Runtime) (acks : List (RunId × Int × Bool)) : Prop :=
  ∀ ack ∈ acks, ∀ i ∈ r.find ack.1, ∀ a ∈ r.actives.get i, ack.2.1 < a.committed

instance (r : Runtime) (results : List (RunId × Option Nat)) : Decidable (r.Answers results) := by
  unfold Answers
  infer_instance

instance (r : Runtime) (acks : List (RunId × Int × Bool)) : Decidable (r.Acknowledges acks) := by
  unfold Acknowledges
  infer_instance

def step (o : Options) (r : Runtime) : Action → Option Runtime
  | .admits runId bindingGeneration firstOrdinal => r.admits runId bindingGeneration firstOrdinal
  | .emits i event bytes =>
    match r.actives.get i with
    | none => none
    | some a =>
      match a.emit o event bytes with
      -- An engine is heard while its execution goes on.
      | .recorded a' => if r.isExecuting i a then some { r with actives := r.actives.set i a' } else none
      | _ => some r
  | .emitReturns i =>
    match r.actives.get i with
    | none => none
    | some a => a.emitReturns.map fun a' => { r with actives := r.actives.set i a' }
  | .resolvesRequest i requestId => r.ofExecuting i fun a => some (a.resolveRequest requestId)
  | .bindsSession i => r.ofExecuting i fun a =>
    some (ActiveRun.addPump { a with journal := { a.journal with sessionBound := true } } ⟨none, false⟩)
  | .flushes i => r.ofExecuting i fun a => if a.shutdown then some (a.addPump ⟨none, false⟩) else none
  | .pumpStarts i => r.advance i ActiveRun.pumpStarts
  | .sendSettles i ok => r.advance i fun a connection => a.sendSettles connection ok
  | .attached results => if r.Answers results then some (r.attach results) else none
  | .acked acks => if r.Acknowledges acks then some (r.acknowledge acks) else none
  | .connectionLost connection => some (r.connectionLost connection)
  | .revoked runIds => some (r.revokeRuns runIds)
  | .shutsDown => some (r.runs.values.foldl
      (fun r i => r.modify i fun a => { a with shutdown := true }) r)
  | .settles i now => r.settles i now
  | .enforcesLeases now lost => some (r.enforceLeases now lost)
  | .hostCommits i =>
    match r.actives.get i with
    | none => none
    | some a =>
      -- The Host hears only the last connection that was attached.
      if a.sends.any fun s => s.connection + 1 = r.connections && s.ordinal = a.committed then
        some (r.modify i fun a => { a with committed := a.committed + 1 })
      else none

def machine (o : Options) : Machine Runtime Action := ⟨step o⟩

end Runtime

end Opensteer.RunnerRuntime
