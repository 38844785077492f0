import Mathlib.Algebra.Order.Ring.Int
import Mathlib.Logic.Function.Basic
import Opensteer.Framework.Machine

/-!
# The person's input lane

`PersonInputLane` of `control/PersonInputLane.kt`, with what it has given to `execute` (`Lane.turns`) and
what it has called so far (`Lane.log`).

An action of `machine` is one stretch under the lane's lock, or between two of them: a call of `submit` or
`reset`, or the next one of a body that was given to `execute` (`turn`), up to the return of the callback
that it calls. A callback returns, and does not call the lane before it does; of an action it makes no
difference whether it returns or throws. Calls of `submit` and `reset` are numbered together, in their order.
-/

namespace Opensteer.PersonInputLane

/-- What the events of one message take, which is far from what 32 bits hold. -/
abbrev Size := { n : Int // 0 ≤ n ∧ n < 2 ^ 30 }

/-- `Int`, of 32 bits. -/
def int32 (n : Int) : Int := n.bmod (2 ^ 32)

structure Batch where
  call : Nat
  stream : Nat
  sequence : Int
  stamp : Nat
  bytes : Int
  events : Int
deriving DecidableEq, Repr

/-- The calls of `reset` that share a cleanup, and those of them that gave an `after`. -/
structure Reset where
  calls : List Nat
  after : List Nat
deriving DecidableEq, Repr

inductive Entry
  | batch (batch : Batch)
  | reset (reset : Reset)
deriving DecidableEq, Repr

def Entry.batch? : Entry → Option Batch
  | .batch b => some b
  | .reset _ => none

@[simp] theorem Entry.batch?_batch (b : Batch) : (Entry.batch b).batch? = some b := rfl

@[simp] theorem Entry.batch?_reset (r : Reset) : (Entry.reset r).batch? = none := rfl

/-- Where a body is that was given to `execute`. -/
inductive Turn
  | queued (entry : Entry)
  | checked (batch : Batch) (current : Bool)
  | called (batch : Batch)
  | cleaning (reset : Reset)
  | calling (after : List Nat)
  | finishing
deriving DecidableEq, Repr

inductive Event
  | submitted (batch : Batch)
  | refused (batch : Batch) (reason : String)
  | started (batch : Batch)
  | ran (batch : Batch)
  | reset (call : Nat) (after : Bool)
  | interrupted
  | cleaned (calls : List Nat)
  | after (call : Nat)
deriving DecidableEq, Repr

structure Lane where
  queue : List Entry
  stamp : Nat
  running : Bool
  bytes : Int
  events : Int
  /-- The `sequence` of each stream. -/
  sequences : Nat → Int
  turns : List Turn
  nextCall : Nat
  log : List Event

namespace Lane

def initial : Lane := ⟨[], 0, false, 0, 0, fun _ => -1, [], 0, []⟩

def next (s : Lane) : Lane :=
  match s.queue with
  | [] => s
  | entry :: queue =>
    if s.running then s else { s with running := true, queue, turns := s.turns ++ [Turn.queued entry] }

def refuse (s : Lane) (batch : Batch) (reason : String) : Lane := { s with log := s.log ++ [Event.refused batch reason] }

def submit (s : Lane) (stream : Nat) (sequence geometry currentGeometry : Int) (size count : Size) : Lane :=
  let batch : Batch := ⟨s.nextCall, stream, sequence, s.stamp, size, count⟩
  let s : Lane := { s with nextCall := s.nextCall + 1, log := s.log ++ [Event.submitted batch] }
  if sequence ≤ s.sequences stream then s.refuse batch "stale"
  else
    let s : Lane := { s with sequences := Function.update s.sequences stream sequence }
    if geometry ≠ currentGeometry then s.refuse batch "stale"
    else if 1048576 < int32 (s.bytes + size) ∨ 512 < int32 (s.events + count) then s.refuse batch "too-large"
    else next { s with
      bytes := int32 (s.bytes + size)
      events := int32 (s.events + count)
      queue := s.queue ++ [Entry.batch batch] }

/-- A batch that a reset drops. -/
def drop (s : Lane) (batch : Batch) : Lane :=
  { s with
    bytes := int32 (s.bytes - batch.bytes)
    events := int32 (s.events - batch.events)
    log := s.log ++ [Event.refused batch "unavailable"] }

/-- The queue with a call of `reset` in the reset at its end, or in one of its own. -/
def joinReset (queue : List Entry) (call : Nat) (after : List Nat) : List Entry :=
  match queue.getLast? with
  | some (.reset reset) => queue.dropLast ++ [Entry.reset ⟨reset.calls ++ [call], reset.after ++ after⟩]
  | _ => queue ++ [Entry.reset ⟨[call], after⟩]

def reset (s : Lane) (after : Bool) : Lane :=
  let call := s.nextCall
  let dropped := s.queue.filterMap Entry.batch?
  let s : Lane := { s with
    stamp := s.stamp + 1
    nextCall := call + 1
    queue := s.queue.filter (·.batch?.isNone)
    log := s.log ++ [Event.reset call after] }
  let s := dropped.foldl drop s
  next { s with
    queue := joinReset s.queue call (if after then [call] else [])
    log := s.log ++ [Event.interrupted] }

/-- The token of a batch. -/
def current (s : Lane) (expected : Nat) : Bool := s.stamp = expected

def finished (s : Lane) : Lane := next { s with running := false }

def turn (s : Lane) (i : Nat) : Option Lane :=
  match s.turns[i]? with
  | none => none
  | some (.queued (.reset reset)) => some { s with turns := s.turns.set i (.cleaning reset) }
  | some (.queued (.batch batch)) =>
    some { s with turns := s.turns.set i (.checked batch (s.current batch.stamp)), log := s.log ++ [Event.started batch] }
  | some (.checked batch true) => some { s with turns := s.turns.set i (.called batch), log := s.log ++ [Event.ran batch] }
  | some (.checked batch false) => some { s.refuse batch "unavailable" with turns := s.turns.set i (.called batch) }
  | some (.called batch) =>
    some { s with
      turns := s.turns.set i .finishing
      bytes := int32 (s.bytes - batch.bytes)
      events := int32 (s.events - batch.events) }
  | some (.cleaning reset) =>
    some { s with turns := s.turns.set i (.calling reset.after), log := s.log ++ [Event.cleaned reset.calls] }
  | some (.calling (call :: after)) => some { s with turns := s.turns.set i (.calling after), log := s.log ++ [Event.after call] }
  | some (.calling []) => some { s with turns := s.turns.set i .finishing }
  | some .finishing => some (finished { s with turns := s.turns.eraseIdx i })

end Lane

inductive Action
  | submit (stream : Nat) (sequence geometry currentGeometry : Int) (size count : Size)
  | reset (after : Bool)
  | turn (i : Nat)

def machine : Machine Lane Action where
  step s
    | .submit stream sequence geometry currentGeometry size count =>
      some (s.submit stream sequence geometry currentGeometry size count)
    | .reset after => some (s.reset after)
    | .turn i => s.turn i

/-! ## What is on the way -/

/-- The entry of a body that has not been settled. -/
def Turn.entry : Turn → Option Entry
  | .queued entry => some entry
  | .checked batch _ => some (.batch batch)
  | .cleaning reset => some (.reset reset)
  | _ => none

/-- The batch of a body whose bytes and events are counted. -/
def Turn.counted : Turn → Option Batch
  | .queued entry => entry.batch?
  | .checked batch _ | .called batch => some batch
  | _ => none

def Entry.after : Entry → List Nat
  | .batch _ => []
  | .reset r => r.after

/-- The calls whose `after` a body still has to call. -/
def Turn.after : Turn → List Nat
  | .queued entry => entry.after
  | .cleaning reset => reset.after
  | .calling after => after
  | _ => []

namespace Lane

/-- What is not settled, in its order. -/
def line (s : Lane) : List Entry := s.turns.filterMap Turn.entry ++ s.queue

/-- The batches that are queued or running. -/
def counted (s : Lane) : List Batch := s.turns.filterMap Turn.counted ++ s.queue.filterMap Entry.batch?

def afters (s : Lane) : List Nat := s.turns.flatMap Turn.after ++ s.queue.flatMap Entry.after

/-- The batches that have had no outcome. -/
def waiting (s : Lane) : List Batch := s.line.filterMap Entry.batch?

end Lane

/-! ## What the log says -/

namespace Event

def submission : Event → Option Batch
  | .submitted batch => some batch
  | _ => none

def outcome : Event → Option Batch
  | .ran batch | .refused batch _ => some batch
  | _ => none

def action : Event → Option Batch
  | .ran batch => some batch
  | _ => none

def given : Event → Option Nat
  | .reset call true => some call
  | _ => none

def answered : Event → Option Nat
  | .after call => some call
  | _ => none

/-- The call of `submit` or `reset`. -/
def call : Event → Option Nat
  | .submitted batch => some batch.call
  | .reset call _ => some call
  | _ => none

end Event

end Opensteer.PersonInputLane
