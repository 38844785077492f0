import Opensteer.Core.Ids
import Opensteer.Framework.Machine
import Opensteer.Framework.OrderedMap

/-!
# The causally ordered sink

`CausallyOrderedRunnerSink` of `apps/runner/src/host/host-connection.ts`: messages of a Run or of a
Trigger occurrence that are sent while a command of it is being applied wait until the command's
receipt is on the wire. What the sink has its delegate do is listed in the order it is asked
(`Sink.delegated`).

A command is applied in steps, one for each promise it awaits: its effect (`decides`, `applyFails`),
each send of the delegate (`sent`, `sendFails`), and its own (`settles`). Between any two of them
anybody may send. The barrier of a command is an object that its release keeps after the map of the
scopes has forgotten it, so the barriers are kept apart from the map, by the call that made them. What
a message takes on the wire (`Buffer.byteLength(JSON.stringify(message), "utf8")`) is a parameter.
-/

namespace Opensteer.CausalSink

inductive CommandType
  | runExecute (runId : RunId)
  | requestResolve (runId : RunId)
  | runInterrupt (runId : RunId)
  | runSteer (runId : RunId)
  | workspaceMount (runId : RunId)
  | triggerExecute (occurrenceId : TriggerOccurrenceId)
  | triggerInterrupt (occurrenceId : TriggerOccurrenceId)
  | watchReconcile (environmentId : EnvironmentId)
  | workspaceDetach
  | harnessUpdate (environmentId : EnvironmentId) (driverKind : String)
deriving DecidableEq, Repr

structure RunnerCommand where
  commandId : CommandId
  correlationId : String
  type : CommandType
deriving DecidableEq, Repr

/-- What `apply` answers. -/
inductive CommandDecision
  | accepted (workspacePath : Option String)
  | rejected (error : String)
  | uncertain (message : String)
deriving DecidableEq, Repr

inductive ReceiptType
  | accepted (workspacePath : Option String)
  | rejected (error : String)
  | uncertain (message : String)
deriving DecidableEq, Repr

structure Receipt where
  commandId : CommandId
  correlationId : String
  type : ReceiptType
deriving DecidableEq, Repr

/-- A report, with what it says beside what it is about. -/
inductive RunnerOperationalReport
  | event (runId : RunId) (body : String)
  | live (runId : RunId) (body : String)
  | sessionBound (runId : RunId) (body : String)
  | triggerResult (occurrenceId : TriggerOccurrenceId) (body : String)
  | watchStatus (activationId : String) (body : String)
  | other (type body : String)
deriving DecidableEq, Repr

def runnerCommandEffectScope (command : RunnerCommand) : Option String :=
  match command.type with
  | .runExecute runId => some ("run:" ++ runId.value)
  | .requestResolve runId | .runInterrupt runId | .runSteer runId | .workspaceMount runId =>
    some ("run:" ++ runId.value)
  | .triggerExecute occurrenceId => some ("trigger:" ++ occurrenceId.value)
  | .triggerInterrupt occurrenceId => some ("trigger:" ++ occurrenceId.value)
  | .watchReconcile environmentId => some ("watch-environment:" ++ environmentId.value)
  | .workspaceDetach => none
  | .harnessUpdate environmentId driverKind =>
    some ("harness-update:" ++ environmentId.value ++ ":" ++ driverKind)

def operationalMessageEffectScope (message : RunnerOperationalReport) : Option String :=
  match message with
  | .event runId _ | .live runId _ | .sessionBound runId _ => some ("run:" ++ runId.value)
  | .triggerResult occurrenceId _ => some ("trigger:" ++ occurrenceId.value)
  | .watchStatus activationId _ => some ("watch:" ++ activationId)
  | .other _ _ => none

def maximumBufferedOutboundBytes : Nat := 8 * 1024 * 1024

/-- A message, with the number of those sent before it. -/
structure Sent where
  index : Nat
  message : RunnerOperationalReport
deriving DecidableEq, Repr

structure BufferedEffectScope where
  bytes : Int
  messages : List Sent
deriving DecidableEq, Repr

/-- What the delegate is called for. -/
inductive DelegateCall
  | receipt (call : Nat) (receipt : Receipt)
  | report (sent : Sent)
  | abort (reason : String)
  | close
deriving DecidableEq, Repr

/-- What a command that is being applied awaits. -/
inductive Phase
  | applying
  | receipting
  | releasing (barrier : Nat)
  | settling (failed : Bool)
deriving DecidableEq, Repr

structure Call where
  command : RunnerCommand
  phase : Phase
deriving DecidableEq, Repr

def Call.scope (call : Call) : Option String := runnerCommandEffectScope call.command

structure Sink where
  scopes : OrderedMap String Nat
  barriers : Nat → BufferedEffectScope
  bufferedBytes : Int
  closed : Bool
  calls : OrderedMap Nat Call
  nextCall : Nat
  nextIndex : Nat
  delegated : List DelegateCall

def initial : Sink where
  scopes := .empty
  barriers := fun _ => ⟨0, []⟩
  bufferedBytes := 0
  closed := false
  calls := .empty
  nextCall := 0
  nextIndex := 0
  delegated := []

namespace Sink

def delegate (s : Sink) (call : DelegateCall) : Sink := { s with delegated := s.delegated ++ [call] }

def setBarrier (s : Sink) (barrier : Nat) (b : BufferedEffectScope) : Sink :=
  { s with barriers := Function.update s.barriers barrier b }

def setPhase (s : Sink) (call : Nat) (phase : Phase) : Sink :=
  { s with calls := s.calls.modify call fun c => { c with phase } }

/-- The call is over. -/
def settle (s : Sink) (call : Nat) : Sink := { s with calls := s.calls.delete call }

/-- `push` of a message. -/
def buffer (size : RunnerOperationalReport → Nat) (s : Sink) (barrier : Nat) (sent : Sent) : Sink :=
  { s.setBarrier barrier ⟨(s.barriers barrier).bytes + size sent.message, (s.barriers barrier).messages ++ [sent]⟩ with
    bufferedBytes := s.bufferedBytes + size sent.message }

/-- A message that nobody sent before. -/
def next (s : Sink) (message : RunnerOperationalReport) : Sent := ⟨s.nextIndex, message⟩

def send (size : RunnerOperationalReport → Nat) (s : Sink) (message : RunnerOperationalReport) : Sink :=
  let sent := s.next message
  let s := { s with nextIndex := s.nextIndex + 1 }
  if s.closed then s
  else match (operationalMessageEffectScope message).bind s.scopes.get with
    | none => s.delegate (.report sent)
    | some barrier =>
      if maximumBufferedOutboundBytes < s.bufferedBytes + size message then
        s.delegate (.abort "Runner causal event buffer exceeded its byte limit")
      else s.buffer size barrier sent

/-- `#discard`. -/
def discard (s : Sink) (scope : String) : Sink :=
  match s.scopes.get scope with
  | none => s
  | some barrier =>
    { s with
      scopes := s.scopes.delete scope
      bufferedBytes := s.bufferedBytes - (s.barriers barrier).bytes }

/-- `if (scope) this.#discard(scope)`. -/
def discardOf (s : Sink) (call : Call) : Sink :=
  match call.scope with
  | none => s
  | some scope => s.discard scope

/-- The next turn of the loop of `#release`. -/
def releaseNext (size : RunnerOperationalReport → Nat) (s : Sink) (id : Nat) (call : Call) (barrier : Nat) : Sink :=
  match (s.barriers barrier).messages with
  | [] => (s.discardOf call).setPhase id (.settling false)
  | sent :: messages =>
    ({ s.setBarrier barrier ⟨(s.barriers barrier).bytes - size sent.message, messages⟩ with
      bufferedBytes := s.bufferedBytes - size sent.message }.delegate (.report sent)).setPhase id (.releasing barrier)

/-- `#release`, and nothing for a command without a scope. -/
def release (size : RunnerOperationalReport → Nat) (s : Sink) (id : Nat) (call : Call) : Sink :=
  match call.scope.bind s.scopes.get with
  | none => s.setPhase id (.settling false)
  | some barrier => s.releaseNext size id call barrier

/-- The start of `applyCommand`, where it does not throw at once. -/
def begin (s : Sink) (command : RunnerCommand) : Sink :=
  let s' := { s with
    calls := s.calls.set s.nextCall ⟨command, .applying⟩
    nextCall := s.nextCall + 1 }
  match runnerCommandEffectScope command with
  | none => s'
  | some scope => { s'.setBarrier s.nextCall ⟨0, []⟩ with scopes := s.scopes.set scope s.nextCall }

def applyCommand (s : Sink) (command : RunnerCommand) : Sink :=
  if s.closed then s
  else match runnerCommandEffectScope command with
    | none => s.begin command
    | some scope => if (s.scopes.get scope).isSome then s else s.begin command

end Sink

def receiptFor (command : RunnerCommand) (decision : CommandDecision) : Receipt where
  commandId := command.commandId
  correlationId := command.correlationId
  type := match decision with
    | .accepted workspacePath => .accepted (workspacePath.filter (· ≠ ""))
    | .rejected error => .rejected error
    | .uncertain message => .uncertain message

namespace Sink

def decides (s : Sink) (id : Nat) (call : Call) (decision : CommandDecision) : Sink :=
  (s.delegate (.receipt id (receiptFor call.command decision))).setPhase id .receipting

/-- The send that a call awaits is done. -/
def sent (size : RunnerOperationalReport → Nat) (s : Sink) (id : Nat) (call : Call) : Option Sink :=
  match call.phase with
  | .receipting => some (s.release size id call)
  | .releasing barrier => some (s.releaseNext size id call barrier)
  | _ => none

/-- It failed. -/
def sendFails (s : Sink) (id : Nat) (call : Call) : Option Sink :=
  match call.phase with
  | .receipting => some ((s.discardOf call).settle id)
  | .releasing _ => some ((s.discardOf call).setPhase id (.settling true))
  | _ => none

/-- The promise of `#release` settles, and with it that of the call. -/
def settles (s : Sink) (id : Nat) (call : Call) : Option Sink :=
  match call.phase with
  | .settling failed => some ((if failed then s.discardOf call else s).settle id)
  | _ => none

def close (s : Sink) : Sink :=
  if s.closed then s
  else { s with closed := true, scopes := .empty, bufferedBytes := 0 }.delegate .close

/-- A command of the scope is being applied. -/
def applies (s : Sink) (scope : String) : Bool := s.calls.values.any fun call => call.scope = some scope

end Sink

inductive Action
  | send (message : RunnerOperationalReport)
  | applyCommand (command : RunnerCommand)
  | decides (call : Nat) (decision : CommandDecision)
  | applyFails (call : Nat)
  | sent (call : Nat)
  | sendFails (call : Nat)
  | settles (call : Nat)
  | close
deriving DecidableEq, Repr

/-- No two commands of one scope are applied at once. -/
def step (size : RunnerOperationalReport → Nat) (s : Sink) : Action → Option Sink
  | .send message => some (s.send size message)
  | .applyCommand command =>
    if (runnerCommandEffectScope command).any s.applies then none else some (s.applyCommand command)
  | .decides id decision => (s.calls.get id).bind fun call =>
    if call.phase = .applying then some (s.decides id call decision) else none
  | .applyFails id => (s.calls.get id).bind fun call =>
    if call.phase = .applying then some ((s.discardOf call).settle id) else none
  | .sent id => (s.calls.get id).bind (s.sent size id)
  | .sendFails id => (s.calls.get id).bind (s.sendFails id)
  | .settles id => (s.calls.get id).bind (s.settles id)
  | .close => some s.close

def machine (size : RunnerOperationalReport → Nat) : Machine Sink Action := ⟨step size⟩

end Opensteer.CausalSink
