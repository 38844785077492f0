import Mathlib.Algebra.Order.Ring.Int
import Opensteer.Core.Errors
import Opensteer.Core.Ids
import Opensteer.Framework.Machine
import Opensteer.Framework.Tally

/-!
# The execution coordinator

`ExecutionCoordinator` of `packages/orchestration/src/execution-coordinator.ts`.
It lists the pending commands of the store, queues them, and dispatches those
it has room for: a few Runs, control commands and Trigger programs at once, and
one `run.execute` of a Thread at a time.

An action of `machine` is one synchronous stretch of the class: a call, a timer,
or what follows when an awaited promise settles. It carries what the stretch
learns from outside: the listing, the time, which commands the dispatcher finds
available, how a promise settled.
-/

namespace Opensteer.ExecutionCoordinator

inductive CommandType
  | runExecute | runSteer | runInterrupt | runRestart | requestRespond | triggerExecute
  | other (name : String)
deriving DecidableEq, Repr

/-- A row of `listPendingCommands`. The store queues a Run's `run.execute` with
the Thread the Run belongs to (`threadOf`). -/
structure PendingCommandRow (threadOf : RunId → ThreadId) where
  id : CommandId
  environmentId : Option EnvironmentId
  threadId : Option ThreadId
  runId : Option RunId
  type : CommandType
  /-- `Buffer.byteLength(JSON.stringify(command.payload), "utf8")`. -/
  payloadBytes : Nat
  run_thread : type = .runExecute → ∀ r ∈ runId, threadId = some (threadOf r)
deriving DecidableEq

variable {threadOf : RunId → ThreadId}

inductive DispatchDisposition
  | retry | uncertain | failed
deriving DecidableEq, Repr

/-- What `dispatch` may reject with. -/
inductive DispatchError
  | command (disposition : DispatchDisposition)
  | opensteer (error : OpensteerError)
  | unknown
deriving DecidableEq, Repr

structure Options where
  maxConcurrentRuns : Nat
  maxConcurrentControls : Nat
  maxConcurrentTriggerPrograms : Nat
  maxQueuedBytes : Nat
  maxQueuedCommands : Nat
  maxConcurrentRuns_pos : 0 < maxConcurrentRuns
  maxConcurrentControls_pos : 0 < maxConcurrentControls
  maxConcurrentTriggerPrograms_pos : 0 < maxConcurrentTriggerPrograms
  maxQueuedBytes_pos : 0 < maxQueuedBytes
  maxQueuedCommands_pos : 0 < maxQueuedCommands

structure QueueEntry (threadOf : RunId → ThreadId) where
  bytes : Nat
  command : PendingCommandRow threadOf
deriving DecidableEq

structure DispatchBackoff where
  attempts : Nat
  nextEligibleAt : Nat
  /-- When it was last recorded, on the coordinator's own count of rejections. -/
  recorded : Nat
deriving DecidableEq, Repr

def dispatchBackoffBaseMs : Nat := 1000
def dispatchBackoffMaxMs : Nat := 30000

/-- What a dispatch that `#pump` began waits for: a promise of `#execute`, or,
once `#execute` has settled, the `finally` that wakes the coordinator if told. -/
inductive Phase
  | claiming | failingTerminal | dispatching | retrying | failing | markingSteerUnknown
  | settled (wakeImmediately : Bool)
deriving DecidableEq, Repr

structure Dispatch (threadOf : RunId → ThreadId) where
  command : PendingCommandRow threadOf
  phase : Phase
deriving DecidableEq

/-- `#controller`, and whether its signal has aborted. -/
inductive Controller
  | absent | running | aborted
deriving DecidableEq, Repr

/-- The running pass of `#reads`: `#poll` waits for its listing, or it has
settled and the pass is about to end. -/
inductive Pass
  | reading (recordedBefore : Nat) | settled
deriving DecidableEq, Repr

structure Coordinator (threadOf : RunId → ThreadId) where
  queue : List (QueueEntry threadOf)
  queuedIds : Finset CommandId
  queuedBytes : Int
  dispatchingIds : Finset CommandId
  activeThreads : Finset ThreadId
  dispatchingRuns : EnvironmentId → Option Int
  dispatchingRunIds : Finset RunId
  dispatchBackoff : CommandId → Option DispatchBackoff
  backoffRecords : Nat
  activeRuns : Int
  activeControls : Int
  activeTriggerPrograms : Int
  controller : Controller
  pollTimer : Bool
  /-- `#running` and `#requested` of `#reads`. -/
  reading : Option Pass
  readRequested : Bool
  stopping : Bool
  /-- The dispatches `#pump` began whose `finally` has not run. -/
  dispatches : List (Dispatch threadOf)

def Coordinator.initial : Coordinator threadOf where
  queue := []
  queuedIds := ∅
  queuedBytes := 0
  dispatchingIds := ∅
  activeThreads := ∅
  dispatchingRuns _ := none
  dispatchingRunIds := ∅
  dispatchBackoff _ := none
  backoffRecords := 0
  activeRuns := 0
  activeControls := 0
  activeTriggerPrograms := 0
  controller := .absent
  pollTimer := false
  reading := none
  readRequested := false
  stopping := false
  dispatches := []

/-! ## Waking -/

/-- `CoalescedWake.wake` of `#reads`, up to the listing `#poll` asks for. -/
def wakeReads (c : Coordinator threadOf) : Coordinator threadOf :=
  if c.reading.isSome then { c with readRequested := true }
  else { c with reading := some (.reading c.backoffRecords) }

def wake (c : Coordinator threadOf) : Coordinator threadOf :=
  if c.controller = .running then wakeReads c else c

def schedulePoll (c : Coordinator threadOf) : Coordinator threadOf :=
  if c.controller = .running then { c with pollTimer := true } else c

/-- The `finally` of a pass of `#reads`. -/
def passEnds (c : Coordinator threadOf) : Coordinator threadOf :=
  let ended := { c with reading := none }
  if c.readRequested then wakeReads { ended with readRequested := false } else schedulePoll ended

/-! ## Pumping -/

def isTriggerProgram (command : PendingCommandRow threadOf) : Bool :=
  command.type = .triggerExecute

def isRun (command : PendingCommandRow threadOf) : Bool := command.type = .runExecute

/-- The environment `#dispatchingRuns` counts the command for. -/
def countedEnvironmentId (command : PendingCommandRow threadOf) : Option EnvironmentId :=
  if isRun command then command.environmentId else none

def dispatchingRunId (command : PendingCommandRow threadOf) : Option RunId :=
  if isRun command then command.runId else none

/-- The Thread the command keeps other `run.execute` commands of it from. -/
def lockedThreadId (command : PendingCommandRow threadOf) : Option ThreadId :=
  if isRun command then command.threadId else none

/-- One of the three active counts, `n` more. -/
def countActive (c : Coordinator threadOf) (command : PendingCommandRow threadOf) (n : Int) :
    Coordinator threadOf :=
  if isTriggerProgram command then { c with activeTriggerPrograms := c.activeTriggerPrograms + n }
  else if isRun command then { c with activeRuns := c.activeRuns + n }
  else { c with activeControls := c.activeControls + n }

def poolHasRoom (o : Options) (c : Coordinator threadOf) (command : PendingCommandRow threadOf) :
    Bool :=
  if isTriggerProgram command then c.activeTriggerPrograms < o.maxConcurrentTriggerPrograms
  else if isRun command then c.activeRuns < o.maxConcurrentRuns
  else c.activeControls < o.maxConcurrentControls

/-- Whether the loop of `#pump` goes on. -/
def anyPoolHasRoom (o : Options) (c : Coordinator threadOf) : Bool :=
  c.activeRuns < o.maxConcurrentRuns || c.activeControls < o.maxConcurrentControls ||
    c.activeTriggerPrograms < o.maxConcurrentTriggerPrograms

/-- What a stretch that pumps learns from outside. -/
structure Outside (threadOf : RunId → ThreadId) where
  now : Nat
  isAvailable : PendingCommandRow threadOf → Int → Bool

/-- The condition `#pump` searches its queue for. -/
def isEligible (o : Options) (out : Outside threadOf) (c : Coordinator threadOf)
    (entry : QueueEntry threadOf) : Bool :=
  entry.command.threadId.isSome &&
  poolHasRoom o c entry.command &&
  !decide (entry.command.id ∈ c.dispatchingIds) &&
  (!isRun entry.command || entry.command.threadId.all fun t => !decide (t ∈ c.activeThreads)) &&
  decide (((c.dispatchBackoff entry.command.id).map DispatchBackoff.nextEligibleAt).getD 0 ≤
    out.now) &&
  out.isAvailable entry.command
    (match entry.command.environmentId with
      | some e => (c.dispatchingRuns e).getD 0
      | none => 0)

/-- What `#pump` does with the entry it found, up to the claim `#execute` asks for. -/
def startDispatch (c : Coordinator threadOf) (entry : QueueEntry threadOf)
    (rest : List (QueueEntry threadOf)) : Coordinator threadOf :=
  let command := entry.command
  { countActive c command 1 with
    queue := rest
    queuedIds := c.queuedIds.erase command.id
    queuedBytes := c.queuedBytes - entry.bytes
    dispatchingRuns := (countedEnvironmentId command).elim c.dispatchingRuns
      (tallyUp c.dispatchingRuns)
    dispatchingRunIds := (dispatchingRunId command).elim c.dispatchingRunIds
      fun r => insert r c.dispatchingRunIds
    activeThreads := (lockedThreadId command).elim c.activeThreads fun t => insert t c.activeThreads
    dispatchingIds := insert command.id c.dispatchingIds
    dispatches := c.dispatches ++ [⟨command, .claiming⟩] }

/-- The loop of `#pump`, at most `fuel` times: each round takes an entry from
the queue, so its length is enough. -/
def pumpLoop (o : Options) (out : Outside threadOf) :
    Nat → Coordinator threadOf → Coordinator threadOf
  | 0, c => c
  | fuel + 1, c =>
    if anyPoolHasRoom o c then
      match c.queue.find? (isEligible o out c) with
      | none => c
      | some entry =>
        pumpLoop o out fuel (startDispatch c entry (c.queue.eraseP (isEligible o out c)))
    else c

def pump (o : Options) (out : Outside threadOf) (c : Coordinator threadOf) :
    Coordinator threadOf :=
  if c.controller = .running then pumpLoop o out c.queue.length c else c

/-! ## Polling -/

/-- The entries of `#dispatchBackoff` that a listing read since `recordedBefore` keeps. -/
def pruneBackoff (c : Coordinator threadOf) (recordedBefore : Nat)
    (commands : List (PendingCommandRow threadOf)) : Coordinator threadOf :=
  { c with dispatchBackoff := fun id =>
      (c.dispatchBackoff id).filter fun backoff =>
        !((!commands.any fun command => command.id = id) && !decide (id ∈ c.dispatchingIds) &&
          decide (backoff.recorded ≤ recordedBefore)) }

def enqueue (c : Coordinator threadOf) (command : PendingCommandRow threadOf) :
    Coordinator threadOf :=
  { c with
    queue := c.queue ++ [⟨command.payloadBytes, command⟩]
    queuedIds := insert command.id c.queuedIds
    queuedBytes := c.queuedBytes + command.payloadBytes }

/-- The loop of `#poll` over the listed commands. -/
def enqueueListed (o : Options) :
    Coordinator threadOf → List (PendingCommandRow threadOf) → Coordinator threadOf
  | c, [] => c
  | c, command :: rest =>
    if command.id ∈ c.queuedIds then enqueueListed o c rest
    else if o.maxQueuedCommands ≤ c.queue.length ∨
        (o.maxQueuedBytes : Int) < c.queuedBytes + command.payloadBytes then c
    else enqueueListed o (enqueue c command) rest

/-- `#poll` from its listing on. -/
def pollListed (o : Options) (out : Outside threadOf) (c : Coordinator threadOf)
    (recordedBefore : Nat) (commands : List (PendingCommandRow threadOf)) : Coordinator threadOf :=
  pump o out (enqueueListed o (pruneBackoff c recordedBefore commands) commands)

/-! ## Executing -/

/-- `resendableControlCommandTypes` of `packages/database/src/command-delivery.ts`. -/
def resendableControlCommandTypes : List CommandType :=
  [.requestRespond, .runInterrupt, .runRestart]

def isResendableControlCommand (type : CommandType) : Bool :=
  resendableControlCommandTypes.contains type

def normalizeDispatchError : DispatchError → DispatchDisposition
  | .command disposition => disposition
  | .opensteer error =>
    if error.code ≠ .internal then (if error.retryable then .retry else .failed) else .failed
  | .unknown => .failed

/-- What `#execute` does next once `dispatch` has rejected. -/
def afterDispatchError (type : CommandType) (disposition : DispatchDisposition) : Phase :=
  let resendable := disposition = .uncertain ∧ isResendableControlCommand type
  if disposition = .retry ∨ resendable then .retrying
  else if disposition = .failed then .failing
  else if type = .runSteer then .markingSteerUnknown
  else .settled true

def backOff (c : Coordinator threadOf) (commandId : CommandId) (now : Nat) :
    Coordinator threadOf :=
  let entry := (c.dispatchBackoff commandId).getD ⟨0, 0, 0⟩
  { c with
    backoffRecords := c.backoffRecords + 1
    dispatchBackoff := Function.update c.dispatchBackoff commandId (some {
      attempts := entry.attempts + 1
      nextEligibleAt := now + min (dispatchBackoffBaseMs * 2 ^ entry.attempts) dispatchBackoffMaxMs
      recorded := c.backoffRecords + 1 }) }

def setPhase (c : Coordinator threadOf) (i : Nat) (phase : Phase) : Coordinator threadOf :=
  { c with dispatches := c.dispatches.modify i fun d => { d with phase } }

/-- How `claimCommand` settles. -/
inductive Claim
  | rolledBack | notPending | claimed | terminalFailure
deriving DecidableEq, Repr

def claimSettles : Claim → Phase
  | .rolledBack => .settled false
  | .notPending => .settled true
  | .claimed => .dispatching
  | .terminalFailure => .failingTerminal

/-- The `finally` of a dispatch, before it pumps. -/
def endDispatch (c : Coordinator threadOf) (i : Nat) (command : PendingCommandRow threadOf) :
    Coordinator threadOf :=
  { countActive c command (-1) with
    dispatchingRuns := (countedEnvironmentId command).elim c.dispatchingRuns
      (tallyDown c.dispatchingRuns)
    dispatchingRunIds := (dispatchingRunId command).elim c.dispatchingRunIds
      c.dispatchingRunIds.erase
    activeThreads := (lockedThreadId command).elim c.activeThreads c.activeThreads.erase
    dispatchingIds := c.dispatchingIds.erase command.id
    dispatches := c.dispatches.eraseIdx i }

def finallyRuns (o : Options) (out : Outside threadOf) (c : Coordinator threadOf) (i : Nat)
    (command : PendingCommandRow threadOf) (wakeImmediately : Bool) : Coordinator threadOf :=
  let pumped := pump o out (endDispatch c i command)
  if wakeImmediately then wake pumped else schedulePoll pumped

/-! ## Starting and stopping -/

/-- `start`; it throws, and changes nothing, once it has started. -/
def start (c : Coordinator threadOf) : Coordinator threadOf :=
  if c.controller = .absent then wake { c with controller := .running } else c

/-- `stop` and the part of `#stop` before it waits. -/
def stop (c : Coordinator threadOf) : Coordinator threadOf :=
  if c.stopping then c
  else { c with
    stopping := true
    controller := if c.controller = .absent then .absent else .aborted
    pollTimer := false
    readRequested := false }

/-- What `#stop` waits for, besides the running pass of `#reads`. -/
def isDrained (c : Coordinator threadOf) : Bool :=
  !(0 < c.activeRuns || 0 < c.activeControls || 0 < c.activeTriggerPrograms)

/-- The rest of `#stop`. -/
def stopEnds (c : Coordinator threadOf) : Coordinator threadOf :=
  { c with
    queue := []
    queuedIds := ∅
    dispatchBackoff := fun _ => none
    queuedBytes := 0
    controller := .absent
    stopping := false }

/-! ## The machine -/

/-- What can happen to the coordinator next. A dispatch is named by its place
among those in progress. -/
inductive Action (threadOf : RunId → ThreadId)
  | start
  | wake
  | timerFires
  | pollListed (out : Outside threadOf) (commands : List (PendingCommandRow threadOf))
  | pollFails
  | passEnds
  | claimSettles (i : Nat) (claim : Claim)
  | dispatchResolves (i : Nat)
  | dispatchRejects (i : Nat) (error : DispatchError)
  /-- `retryCommand` resolves. -/
  | retryResolves (i : Nat) (now : Nat)
  /-- `failCommand` or `markSteerUnknown` resolves. -/
  | recordResolves (i : Nat)
  /-- The store, or a callback `#execute` calls, throws. -/
  | executeRejects (i : Nat)
  | finallyRuns (i : Nat) (out : Outside threadOf)
  | stop
  /-- `#stop` resumes after its last wait. -/
  | stopEnds

def step (o : Options) (c : Coordinator threadOf) :
    Action threadOf → Option (Coordinator threadOf)
  | .start => some (start c)
  | .wake => some (wake c)
  | .timerFires => if c.pollTimer then some (wake { c with pollTimer := false }) else none
  | .pollListed out commands =>
    match c.reading with
    | some (.reading recordedBefore) =>
      some { pollListed o out c recordedBefore commands with reading := some .settled }
    | _ => none
  | .pollFails =>
    match c.reading with
    | some (.reading _) => some { c with reading := some .settled }
    | _ => none
  | .passEnds =>
    match c.reading with
    | some .settled => some (passEnds c)
    | _ => none
  | .claimSettles i claim =>
    match c.dispatches[i]? with
    | some ⟨_, .claiming⟩ => some (setPhase c i (claimSettles claim))
    | _ => none
  | .dispatchResolves i =>
    match c.dispatches[i]? with
    | some ⟨command, .dispatching⟩ =>
      some { setPhase c i (.settled true) with
        dispatchBackoff := Function.update c.dispatchBackoff command.id none }
    | _ => none
  | .dispatchRejects i error =>
    match c.dispatches[i]? with
    | some ⟨command, .dispatching⟩ =>
      some (setPhase c i (afterDispatchError command.type (normalizeDispatchError error)))
    | _ => none
  | .retryResolves i now =>
    match c.dispatches[i]? with
    | some ⟨command, .retrying⟩ => some (setPhase (backOff c command.id now) i (.settled true))
    | _ => none
  | .recordResolves i =>
    match c.dispatches[i]? with
    | some ⟨_, .failingTerminal⟩ | some ⟨_, .failing⟩ | some ⟨_, .markingSteerUnknown⟩ =>
      some (setPhase c i (.settled true))
    | _ => none
  | .executeRejects i =>
    match c.dispatches[i]? with
    | some ⟨_, .settled _⟩ | none => none
    | some _ => some (setPhase c i (.settled false))
  | .finallyRuns i out =>
    match c.dispatches[i]? with
    | some ⟨command, .settled wakeImmediately⟩ =>
      some (finallyRuns o out c i command wakeImmediately)
    | _ => none
  | .stop => some (stop c)
  | .stopEnds => if c.stopping && isDrained c then some (stopEnds c) else none

def machine (o : Options) : Machine (Coordinator threadOf) (Action threadOf) := ⟨step o⟩

end Opensteer.ExecutionCoordinator
