import Opensteer.Framework.Machine

/-!
# The gesture scheduler of an agent's phone

`GestureScheduler.kt`: one contact at a time, held through segments that continue it, each sent to
Android once the one before was answered.

A step is one action of the queue that `clock.post` feeds, so a call is where its action runs. What
such an action posts in turn runs in some later step: the cancel with which a person's press takes a
contact from an agent (`posted`), an answer to a segment (`sent`; a dispatch that throws is one that
is answered with false), and what waits for a timer, which may run out at any time. The clock stands
still during a step, and whether a press or a gesture is allowed is asked at most once in it
(`Turn`). A callback is named by the call that gave it; one that was not given does nothing.

What the scheduler did is its log.
-/

namespace Opensteer.AgentPhone

structure DisplayPoint where
  x : Int
  y : Int
deriving DecidableEq, Repr

structure GestureSegment where
  points : List DisplayPoint
  nonempty : points ≠ []
  durationMs : Int
  continuing : Bool
  first : Bool
  cancel : Bool := false
  delayMs : Int := 0
deriving DecidableEq, Repr

inductive Producer
  | agent
  | person
deriving DecidableEq, Repr

inductive Result
  | done
  | interrupted
  | personContact
deriving DecidableEq, Repr

/-- What a call gives back: `result` and `refused` are those of `agent`, `start` is what a person's
press has run once the agent's contact is cancelled. -/
inductive CallbackKind
  | done
  | started
  | contended
  | start
  | result
  | refused
  | cancelled
  | idle
deriving DecidableEq, Repr

structure Callback where
  call : Nat
  kind : CallbackKind
deriving DecidableEq, Repr

inductive Answer
  | unit
  | bool (value : Bool)
  | result (value : Result)
deriving DecidableEq, Repr

/-- What `completion` is given, when it was given to `down` or to `agent`. -/
def Callback.complete (callback : Callback) (success : Bool) : Answer :=
  match callback.kind with
  | .result => .result (if success then .done else .interrupted)
  | _ => .bool success

structure Down where
  point : DisplayPoint
  watchdog : Bool := true
  holdMs : Int := 1
  time : Option Int := none
  producer : Producer := .person
  contact : Option Nat := none
  call : Nat
deriving DecidableEq, Repr

/-- What waits for a contact to be cancelled. -/
inductive Cleaner
  | given (call : Nat)
  | start (down : Down)
deriving DecidableEq, Repr

def Cleaner.callback : Cleaner → Callback
  | .given call => ⟨call, .cancelled⟩
  | .start down => ⟨down.call, .start⟩

structure Scroll where
  source : DisplayPoint
  dx : Float
  dy : Float
  allowed : Nat
  bounds : DisplayPoint

inductive Timer
  | flush (expected : Nat)
  | watch (expected : Nat)
  | retry
deriving DecidableEq, Repr

/-- What has been done: `called` is a cancel or an idle that names a producer and a contact, or
none. -/
inductive Entry
  | began (contact : Nat) (producer : Producer) (token : Option Nat)
  | ended (contact : Nat)
  | dispatched (contact : Nat) (id : Nat) (segment : GestureSegment)
  | answered (contact : Nat) (id : Nat) (segment : GestureSegment) (ok : Bool)
  | called (callback : Callback) (producer : Option Producer) (token : Option Nat)
  | accepted (callback : Callback)
  | ran (callback : Callback) (answer : Answer)
deriving DecidableEq, Repr

/-- `authority` is the call whose closure is asked, and `started` the press whose `onStarted` is to
be run. -/
structure Scheduler where
  producer : Producer := .person
  contact : Option Nat := none
  agentSegments : List GestureSegment := []
  active : Bool := false
  inFlight : Bool := false
  endpoint : DisplayPoint := ⟨0, 0⟩
  endpointTime : Int := 0
  moved : Bool := false
  authority : Option Nat := none
  moves : List (DisplayPoint × Int) := []
  ending : Option (DisplayPoint × Int) := none
  cancelling : Bool := false
  trafficAt : Int := 0
  serial : Nat := 0
  dispatchId : Nat := 0
  flushScheduled : Bool := false
  cleaners : List Cleaner := []
  idleWaiters : List Callback := []
  completion : Option Callback := none
  success : Bool := true
  started : Option Nat := none
  releaseHold : Int := 0
  scroll : Option Scroll := none
  calls : Nat := 0
  posted : List Down := []
  timers : List Timer := []
  sent : List (Nat × GestureSegment) := []
  log : List Entry := []

/-- What a step is told: the time, and whether the closure of a call allows. -/
structure Turn where
  now : Int
  allows : Nat → Bool

namespace Scheduler

variable (s : Scheduler) (turn : Turn)

def note (entry : Entry) : Scheduler := { s with log := s.log ++ [entry] }

def run (callback : Callback) (answer : Answer) : Scheduler := s.note (.ran callback answer)

def after (timer : Timer) : Scheduler := { s with timers := s.timers ++ [timer] }

/-- `runCatching(authority).getOrDefault(false)` -/
def authorized : Bool := s.authority.any turn.allows

def begin (point : DisplayPoint) (allowed : Nat) (time : Int) (producer : Producer)
    (contact : Option Nat) : Scheduler :=
  { s with
    producer, contact, serial := s.serial + 1, active := true, authority := some allowed,
    endpoint := point, endpointTime := time, moved := false, trafficAt := turn.now,
    success := true }.note (.began (s.serial + 1) producer contact)

/-- The segment is sent; what comes of the dispatch is an answer, in a later step. -/
def emit (segment : GestureSegment) : Scheduler :=
  { s with
    inFlight := true, dispatchId := s.dispatchId + 1,
    endpoint := segment.points.getLast segment.nonempty,
    sent := s.sent ++ [(s.dispatchId + 1, segment)] }.note
      (.dispatched s.serial (s.dispatchId + 1) segment)

/-- A stroke off the display. -/
def cancelStroke : GestureSegment :=
  { points := [⟨100000, 100000⟩], nonempty := by simp, durationMs := 1, continuing := false,
    first := true, cancel := true }

/-- The moves and the release that wait are sent as one segment. -/
def flush : Scheduler :=
  let waiting := s.moves ++ s.ending.toList
  let kept := (waiting.map Prod.fst).zipIdx.filter fun p =>
    p.2 ≠ waiting.length - 1 || p.1 ≠ s.endpoint || 1 < waiting.length
  let points := s.endpoint :: kept.map Prod.fst
  let time := (waiting.getLast?.map Prod.snd).getD s.endpointTime
  let moving := points.any fun p => p ≠ s.endpoint
  let duration := if moving then max (time - s.endpointTime) 32 else max s.releaseHold 1
  let g := { s with moves := [], endpointTime := time }
  if moving || s.ending.isSome then
    g.emit { points, nonempty := by simp [points], durationMs := duration,
             continuing := s.ending.isNone, first := false }
  else g

def pump : Scheduler :=
  if s.inFlight || !s.active then s
  else
    let s := if s.authorized turn then s
      else { s with success := false, cancelling := true, moves := [] }
    if s.cancelling then s.emit cancelStroke
    else if s.ending.isSome || (!s.flushScheduled && s.moves ≠ []) then s.flush
    else s

/-- `coerceIn`, which throws for an empty range. -/
def coerceIn (value least greatest : Int) : Option Int :=
  if greatest < least then none else some (max least (min value greatest))

/-- The end of a swipe, one coordinate. -/
def swipeTo (source : Int) (delta : Float) (bound : Int) : Option Int :=
  coerceIn (Float.ofInt source + delta).toInt32.toInt 0 (bound - 1)

/-- The contact of a swipe. -/
def swipe (waiting : Scroll) (target : DisplayPoint) : Scheduler :=
  let s := s.begin turn waiting.source waiting.allowed turn.now .person none
  let s := { s with ending := some (target, s.endpointTime + 300), releaseHold := 100 }
  let s := s.emit { points := [waiting.source, target], nonempty := by simp, durationMs := 300,
                    continuing := true, first := true }
  { s with endpointTime := s.endpointTime + 300 }

/-- It throws where the bounds are empty. -/
def startScroll : Option Scheduler :=
  if s.active || s.inFlight then some s
  else
    match s.scroll with
    | none => some s
    | some waiting =>
      if !turn.allows waiting.allowed then some { s with scroll := none }
      else if Float.sqrt (waiting.dx * waiting.dx + waiting.dy * waiting.dy) < 8 then some s
      else
        (swipeTo waiting.source.x waiting.dx waiting.bounds.x).bind fun x =>
        (swipeTo waiting.source.y waiting.dy waiting.bounds.y).map fun y =>
          let target : DisplayPoint := ⟨x, y⟩
          let rest := { waiting with
            dx := waiting.dx - Float.ofInt (x - waiting.source.x)
            dy := waiting.dy - Float.ofInt (y - waiting.source.y) }
          let s := { s with scroll := if target = waiting.source then none else some rest }
          if target = waiting.source then s else s.swipe turn waiting target

def scheduleFlush : Scheduler :=
  if s.flushScheduled then s else { s with flushScheduled := true }.after (.flush s.serial)

/-- `start` in `down`. -/
def start (down : Down) : Scheduler :=
  if s.active || s.inFlight || !turn.allows down.call then
    let s := if down.producer = .agent && s.producer = .person && s.active then
      s.run ⟨down.call, .contended⟩ .unit else s
    (s.run ⟨down.call, .started⟩ (.bool false)).run ⟨down.call, .done⟩ (.bool false)
  else
    let s := s.begin turn down.point down.call (down.time.getD turn.now) down.producer down.contact
    let s := { s with
      completion := some ⟨down.call, .done⟩, started := some down.call }
    let s := s.note (.accepted ⟨down.call, .done⟩)
    let s := s.emit { points := [down.point], nonempty := by simp, durationMs := max down.holdMs 1,
                      continuing := true, first := true }
    if down.watchdog then s.after (.watch s.serial) else s

def runCleaner (cleaner : Cleaner) : Scheduler :=
  let s := s.run cleaner.callback .unit
  match cleaner with
  | .given _ => s
  | .start down => s.start turn down

def runStarted (ok : Bool) : Scheduler :=
  match s.started with
  | some call => { s with started := none }.run ⟨call, .started⟩ (.bool ok)
  | none => s

def runCompletion : Scheduler :=
  match s.completion with
  | some callback => { s with completion := none }.run callback (callback.complete s.success)
  | none => s

def runCleaners : Scheduler :=
  s.cleaners.foldl (fun s cleaner => s.runCleaner turn cleaner) { s with cleaners := [] }

def runIdle : Scheduler :=
  s.idleWaiters.foldl (fun s callback => s.run callback .unit) { s with idleWaiters := [] }

def finish : Scheduler :=
  let s := { s with
    active := false, moves := [], ending := none, cancelling := false, flushScheduled := false,
    releaseHold := 0, agentSegments := [], contact := none }.note (.ended s.serial)
  let s := ((s.runStarted false).runCompletion).runCleaners turn
  match s.startScroll turn with
  | none => s
  | some s => if s.active then s else s.runIdle

/-- `answer` in `emit`, for the segment that was sent as `id`. -/
def answer (id : Nat) (segment : GestureSegment) (ok : Bool) : Scheduler :=
  if !s.inFlight || id ≠ s.dispatchId then s
  else
    let s := { s with inFlight := false, success := s.success && ok }.note
      (.answered s.serial id segment ok)
    if !ok then
      let s := { s with cancelling := true, moves := [], ending := none, agentSegments := [] }
      if segment.cancel then s.after .retry else s.pump turn
    else if s.cancelling && !segment.cancel then s.pump turn
    else if !segment.continuing then
      match s.agentSegments with
      | [] => s.finish turn
      | next :: rest =>
        if s.authorized turn then { s with agentSegments := rest }.emit next
        else { s with success := false }.finish turn
    else
      let s := if segment.first then s.runStarted true else s
      s.pump turn

def owns (producer : Producer) (contact : Option Nat) : Bool :=
  s.active && s.producer = producer && s.contact = contact

def down (down : Down) : Scheduler :=
  if down.producer = .person && s.active && s.producer = .agent then
    { s with posted := s.posted ++ [down] }
  else s.start turn down

/-- The first segment cannot be missing: `first` would throw, after `admit`. -/
def agent (call : Nat) (segments : List GestureSegment) (admitted : Bool) : Scheduler :=
  if s.active || s.inFlight then
    s.run ⟨call, .result⟩
      (.result (if s.producer = .person then .personContact else .interrupted))
  else if !admitted then s.run ⟨call, .refused⟩ .unit
  else
    match segments with
    | [] => s
    | first :: rest =>
      let s := s.begin turn (first.points.head first.nonempty) call turn.now .agent none
      let s := { s with completion := some ⟨call, .result⟩ }.note (.accepted ⟨call, .result⟩)
      { s with agentSegments := s.agentSegments ++ rest }.emit first

def move (point : DisplayPoint) (time : Option Int) (producer : Producer)
    (contact : Option Nat) : Scheduler :=
  if !s.owns producer contact || s.ending.isSome || s.cancelling then s
  else
    let moves := if s.moves.length = 64 then s.moves.tail else s.moves
    let «at» := time.getD turn.now
    let s := { s with trafficAt := turn.now }
    let s :=
      if !s.moved && point ≠ s.endpoint then
        { s with endpointTime := max s.endpointTime («at» - 32), moved := true }
      else s
    { s with moves := moves ++ [(point, «at»)] }.scheduleFlush

def up (point : DisplayPoint) (time : Option Int) (producer : Producer)
    (contact : Option Nat) : Scheduler :=
  if !s.owns producer contact then s
  else
    { s with trafficAt := turn.now, ending := some (point, time.getD turn.now) }.pump turn

def idle (call : Nat) : Scheduler :=
  let s := s.note (.called ⟨call, .idle⟩ none none)
  if !s.active && !s.inFlight then s.run ⟨call, .idle⟩ .unit
  else { s with idleWaiters := s.idleWaiters ++ [⟨call, .idle⟩] }

def cancel (producer : Option Producer) (contact : Option Nat) (done : Cleaner) : Scheduler :=
  let s := s.note (.called done.callback producer contact)
  let s := if producer = some .agent then s else { s with scroll := none }
  if producer.isSome && (!s.active || some s.producer ≠ producer ||
      (contact.isSome && s.contact ≠ contact)) then s.runCleaner turn done
  else if !s.active && !s.inFlight then s.runCleaner turn done
  else
    let s := { s with
      cleaners := s.cleaners ++ [done], success := false, cancelling := true, moves := [],
      ending := none, agentSegments := [] }
    (s.note (.accepted done.callback)).pump turn

def scrollBy (call : Nat) (source : DisplayPoint) (dx dy : Float) (bounds : DisplayPoint) :
    Scheduler :=
  let scroll := match s.scroll with
    | none => { source, dx, dy, allowed := call, bounds }
    | some waiting => { waiting with dx := waiting.dx + dx, dy := waiting.dy + dy }
  let s := { s with scroll := some scroll }
  (s.startScroll turn).getD s

/-- A timer that has run out. -/
def fire (timer : Timer) : Scheduler :=
  match timer with
  | .flush expected =>
    if s.serial = expected then { s with flushScheduled := false }.pump turn else s
  | .watch expected =>
    if !s.active || s.serial ≠ expected then s
    else if turn.now - s.trafficAt ≥ 5000 then
      { s with success := false, cancelling := true, moves := [] }.pump turn
    else s.after (.watch expected)
  | .retry => s.pump turn

end Scheduler

/-- What is run next. -/
inductive Action
  | down (point : DisplayPoint) (watchdog : Bool) (holdMs : Int) (time : Option Int)
      (producer : Producer) (contact : Option Nat)
  | agent (segments : List GestureSegment) (admitted : Bool)
  | traffic
  | move (point : DisplayPoint) (time : Option Int) (producer : Producer) (contact : Option Nat)
  | up (point : DisplayPoint) (time : Option Int) (producer : Producer) (contact : Option Nat)
  | idle
  | cancel (producer : Option Producer) (contact : Option Nat)
  | scroll (source : DisplayPoint) (dx dy : Float) (bounds : DisplayPoint)
  /-- The cancel that a press posted. -/
  | posted (index : Nat)
  | timer (index : Nat)
  | answer (id : Nat) (ok : Bool)

def gestureScheduler : Machine Scheduler (Turn × Action) where
  step s := fun (turn, action) =>
    let called := { s with calls := s.calls + 1 }
    match action with
    | .down point watchdog holdMs time producer contact =>
      some (called.down turn { point, watchdog, holdMs, time, producer, contact, call := s.calls })
    | .agent segments admitted => some (called.agent turn s.calls segments admitted)
    | .traffic => some { s with trafficAt := turn.now }
    | .move point time producer contact => some (s.move turn point time producer contact)
    | .up point time producer contact => some (s.up turn point time producer contact)
    | .idle => some (called.idle s.calls)
    | .cancel producer contact => some (called.cancel turn producer contact (.given s.calls))
    | .scroll source dx dy bounds => some (called.scrollBy turn s.calls source dx dy bounds)
    | .posted index =>
      s.posted[index]?.map fun down =>
        { s with posted := s.posted.eraseIdx index }.cancel turn none none (.start down)
    | .timer index =>
      s.timers[index]?.map fun timer =>
        { s with timers := s.timers.eraseIdx index }.fire turn timer
    | .answer id ok =>
      (s.sent.find? fun sent => sent.1 = id).map fun sent => s.answer turn id sent.2 ok

end Opensteer.AgentPhone
