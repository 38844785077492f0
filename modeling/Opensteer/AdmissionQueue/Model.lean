import Mathlib.Algebra.Order.Ring.Int
import Opensteer.Core.Errors
import Opensteer.Framework.Machine
import Mathlib.Data.List.Basic
import Mathlib.Logic.Function.Basic

/-!
# The keyed admission queue

`KeyedAdmissionQueue` of `packages/orchestration/src/admission-queue.ts`. A
command names the keys it is ordered by and starts once no earlier command
sharing one of them runs or waits; at most `maxInFlight` run at once.

An action of `machine` is one synchronous stretch of the class: an `execute` or
`close` call, the end of one attempt of a task's `run`, the end of the pause
before the next attempt, or the `finally` that follows a task's settlement.
The fields from `admitted` on hold what the promises of the source hold: which
tasks were taken, which are between `#start` and that `finally`, and how each
promise settled.
-/

namespace Opensteer.AdmissionQueue

variable {κ ρ ε : Type} [DecidableEq κ]

/-- How many times a command that keeps losing to concurrent transactions is run. -/
def maxConflictAttempts : Nat := 4

/-- The constructor refuses bounds below one. -/
structure Options (ε : Type) where
  isTransactionConflict : ε → Bool
  maxInFlight : Nat
  maxQueuedBytes : Nat
  maxQueuedCommands : Nat
  maxInFlight_pos : 0 < maxInFlight
  maxQueuedBytes_pos : 0 < maxQueuedBytes
  maxQueuedCommands_pos : 0 < maxQueuedCommands

/-- A task, named by its place among the admitted ones. -/
structure QueuedTask (κ : Type) where
  id : Nat
  bytes : Nat
  keys : List κ
deriving DecidableEq

/-- Where a started task is: in its `n`th attempt, in the pause after it, or
settled, with the `finally` of `#start` still to run. -/
inductive Phase
  | attempting (n : Nat) | pausing (n : Nat) | settled
deriving DecidableEq

structure RunningTask (κ : Type) where
  task : QueuedTask κ
  phase : Phase
deriving DecidableEq

/-- How an admitted task's promise settled. -/
inductive Settlement (ρ ε : Type)
  | resolved (value : ρ)
  | rejected (error : ε)
  | shutDown (error : HostError)
deriving DecidableEq

/-- What `estimatedBytes` may be: `Number.isInteger` refuses the rest. -/
inductive Estimate
  | integer (n : Int) | notInteger
deriving DecidableEq

structure Queue (κ ρ ε : Type) where
  pending : List (QueuedTask κ)
  heldKeys : κ → Option Nat
  inFlight : Nat
  queuedBytes : Nat
  isClosed : Bool
  /-- The `close` calls that wait for the queue to be idle. -/
  idleWaiters : List Nat
  admitted : List (QueuedTask κ)
  running : List (RunningTask κ)
  started : List (QueuedTask κ)
  settled : List (Nat × Settlement ρ ε)
  closeCalls : Nat
  closesResolved : List Nat

def Queue.empty : Queue κ ρ ε where
  pending := []
  heldKeys _ := none
  inFlight := 0
  queuedBytes := 0
  isClosed := false
  idleWaiters := []
  admitted := []
  running := []
  started := []
  settled := []
  closeCalls := 0
  closesResolved := []

/-- The keys of a task, without repetitions (`[...new Set(keys)]`). -/
def uniqueKeys (keys : List κ) : List κ := keys.eraseDups

/-- `#heldKeys` once `key` is held one time more. -/
def holdKey (held : κ → Option Nat) (key : κ) : κ → Option Nat :=
  Function.update held key (some ((held key).getD 0 + 1))

/-- `#heldKeys` once `key` is held one time less. -/
def releaseKey (held : κ → Option Nat) (key : κ) : κ → Option Nat :=
  Function.update held key
    (if 0 < (held key).getD 1 - 1 then some ((held key).getD 1 - 1) else none)

/-- `#start`, up to the first attempt of the task. -/
def start (q : Queue κ ρ ε) (task : QueuedTask κ) : Queue κ ρ ε :=
  { q with
    inFlight := q.inFlight + 1
    queuedBytes := q.queuedBytes - task.bytes
    heldKeys := task.keys.foldl holdKey q.heldKeys
    running := q.running ++ [⟨task, .attempting 1⟩]
    started := q.started ++ [task] }

/-- Whether no key of the task is held, or awaited by an earlier task. -/
def isReady (q : Queue κ ρ ε) (waitingKeys : List κ) (task : QueuedTask κ) : Bool :=
  task.keys.all fun key => (q.heldKeys key).isNone && !waitingKeys.contains key

/-- The loop of `#pump`: `kept` is the part of `#pending` before `index`, the
last argument the part from it on. -/
def pumpLoop (o : Options ε) :
    Queue κ ρ ε → List κ → List (QueuedTask κ) → List (QueuedTask κ) → Queue κ ρ ε
  | q, _, _, [] => q
  | q, waitingKeys, kept, task :: rest =>
    if o.maxInFlight ≤ q.inFlight then q
    else if isReady q waitingKeys task then
      pumpLoop o (start { q with pending := kept ++ rest } task) waitingKeys kept rest
    else pumpLoop o q (waitingKeys ++ task.keys) (kept ++ [task]) rest

/-- Whether nothing runs and nothing waits. -/
def isIdle (q : Queue κ ρ ε) : Bool := q.inFlight == 0 && q.pending.isEmpty

/-- The end of `#pump`: an idle queue resolves the `close` calls that wait for it. -/
def resolveIdle (q : Queue κ ρ ε) : Queue κ ρ ε :=
  if isIdle q then
    { q with idleWaiters := [], closesResolved := q.closesResolved ++ q.idleWaiters }
  else q

def pump (o : Options ε) (q : Queue κ ρ ε) : Queue κ ρ ε :=
  resolveIdle (pumpLoop o q [] [] q.pending)

/-- The task an `execute` call would admit. -/
def newTask (q : Queue κ ρ ε) (keys : List κ) (bytes : Nat) : QueuedTask κ :=
  ⟨q.admitted.length, bytes, uniqueKeys keys⟩

def enqueue (q : Queue κ ρ ε) (task : QueuedTask κ) : Queue κ ρ ε :=
  { q with
    pending := q.pending ++ [task]
    queuedBytes := q.queuedBytes + task.bytes
    admitted := q.admitted ++ [task] }

def execute (o : Options ε) (q : Queue κ ρ ε) (keys : List κ) (estimatedBytes : Estimate) :
    Except HostError (Queue κ ρ ε) :=
  if q.isClosed then
    .error (.opensteer { code := .conflict, message := "Command queue is closed" })
  else match estimatedBytes with
    | .notInteger | .integer (.negSucc _) =>
      .error (.typeError "estimatedBytes must be a non-negative integer")
    | .integer (.ofNat bytes) =>
      if o.maxQueuedCommands ≤ q.pending.length ∨ o.maxQueuedBytes < q.queuedBytes + bytes then
        .error (.opensteer {
          code := .timeout
          retryAfterMs := some 250
          message := "Host command admission is temporarily full"
          retryable := true })
      else .ok (pump o (enqueue q (newTask q keys bytes)))

/-- The error `close` rejects what waits with. -/
def shutdownError : HostError :=
  .opensteer { code := .conflict, message := "Host is shutting down", retryable := true }

/-- `#waitForIdle`, for the `close` call `n`. -/
def waitForIdle (q : Queue κ ρ ε) (n : Nat) : Queue κ ρ ε :=
  if isIdle q then { q with closesResolved := q.closesResolved ++ [n] }
  else { q with idleWaiters := q.idleWaiters ++ [n] }

/-- What the first `close` call does to what waits. -/
def shut (q : Queue κ ρ ε) : Queue κ ρ ε :=
  { q with
    isClosed := true
    pending := []
    queuedBytes := 0
    settled := q.settled ++ q.pending.map fun task => (task.id, .shutDown shutdownError) }

def close (q : Queue κ ρ ε) : Queue κ ρ ε :=
  let called := { q with closeCalls := q.closeCalls + 1 }
  waitForIdle (if q.isClosed then called else shut called) q.closeCalls

/-- The started task `id`, if it has not come to its `finally` yet. -/
def findRunning (q : Queue κ ρ ε) (id : Nat) : Option (RunningTask κ) :=
  q.running.find? fun r => r.task.id == id

def setPhase (q : Queue κ ρ ε) (id : Nat) (phase : Phase) : Queue κ ρ ε :=
  { q with running := q.running.map fun r => if r.task.id = id then { r with phase } else r }

/-- `task.resolve` or `task.reject`. -/
def settle (q : Queue κ ρ ε) (id : Nat) (settlement : Settlement ρ ε) : Queue κ ρ ε :=
  { setPhase q id .settled with settled := q.settled ++ [(id, settlement)] }

/-- `#runWithConflictRetries` once its `attempt`th call of `run` settles. -/
def attemptEnds (o : Options ε) (q : Queue κ ρ ε) (id attempt : Nat) : Except ε ρ → Queue κ ρ ε
  | .ok value => settle q id (.resolved value)
  | .error error =>
    if maxConflictAttempts ≤ attempt ∨ o.isTransactionConflict error = false then
      settle q id (.rejected error)
    else setPhase q id (.pausing attempt)

/-- The `finally` of `#start`, before it pumps. -/
def release (q : Queue κ ρ ε) (task : QueuedTask κ) : Queue κ ρ ε :=
  { q with
    inFlight := q.inFlight - 1
    heldKeys := task.keys.foldl releaseKey q.heldKeys
    running := q.running.filter fun r => r.task.id ≠ task.id }

def finish (o : Options ε) (q : Queue κ ρ ε) (task : QueuedTask κ) : Queue κ ρ ε :=
  pump o (release q task)

/-- What can happen to the queue next. -/
inductive Action (κ ρ ε : Type)
  | execute (keys : List κ) (estimatedBytes : Estimate)
  | attemptEnds (id : Nat) (result : Except ε ρ)
  | pauseEnds (id : Nat)
  | finish (id : Nat)
  | close

def step (o : Options ε) (q : Queue κ ρ ε) : Action κ ρ ε → Option (Queue κ ρ ε)
  | .execute keys estimatedBytes =>
    match execute o q keys estimatedBytes with
    | .ok q' => some q'
    | .error _ => some q
  | .attemptEnds id result =>
    match findRunning q id with
    | some ⟨_, .attempting n⟩ => some (attemptEnds o q id n result)
    | _ => none
  | .pauseEnds id =>
    match findRunning q id with
    | some ⟨_, .pausing n⟩ => some (setPhase q id (.attempting (n + 1)))
    | _ => none
  | .finish id =>
    match findRunning q id with
    | some ⟨task, .settled⟩ => some (finish o q task)
    | _ => none
  | .close => some (close q)

def machine (o : Options ε) : Machine (Queue κ ρ ε) (Action κ ρ ε) := ⟨step o⟩

end Opensteer.AdmissionQueue
