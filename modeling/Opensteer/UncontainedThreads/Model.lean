import Opensteer.WarmEnginePool.Model

/-!
# Threads that stay closed

`#uncontainedThreads` of `runner/src/runtime/runtime.ts`, with what closes and opens it: `#execute` from its
admission to its end, `#retireWarmEngine` and `#holdUncontainedThread`, over the pool of warm engines. Each `await`
between them may take any time, and may throw where an action `finish` is possible. A Run that keeps its engine may
end before its `put` has, which it does not in the code. The log is what happened, for the theorems.
-/

namespace Opensteer.UncontainedThreads

open WarmEnginePool

abbrev ThreadId := String

abbrev ExecutionId := String

structure WarmEngine where
  threadId : ThreadId
  scope : ExecutionId
deriving DecidableEq, Repr

/-- What `terminate` resolves to. -/
inductive TerminationProof
  | proven
  | unknown
deriving DecidableEq, Repr

/-- Where `#execute` waits. -/
inductive Stage
  | preparing
  /-- For the pool's engine. -/
  | taking
  | taken
  /-- For the engine it took and cannot use to be retired. -/
  | retiring (engine : WarmEngine)
  /-- It has found its Thread contained. -/
  | checked
  /-- Its engine has been started, or is the one it took. -/
  | started
  | keeping
  /-- For its engine to be retired at its end. -/
  | stopping (engine : WarmEngine)
  /-- For what it left running to end. -/
  | terminating
  | settling (termination : TerminationProof)
deriving DecidableEq, Repr

structure Run where
  containmentScope : ExecutionId
  warmEngine : Option WarmEngine := none
  stage : Stage := .preparing
deriving DecidableEq, Repr

/-- An interval's timer, and an attempt that it has made. -/
structure Retry where
  timer : Nat
  threadId : ThreadId
  executionId : ExecutionId
deriving DecidableEq, Repr

inductive Event
  | admitted (threadId : ThreadId)
  /-- An engine is started. -/
  | started (threadId : ThreadId)
  | held (threadId : ThreadId) (executionId : ExecutionId)
  /-- A retry has proven the execution gone. -/
  | proven (threadId : ThreadId) (executionId : ExecutionId)
deriving DecidableEq, Repr

structure State where
  /-- `#threads`, with the Run of each. -/
  runs : OrderedMap ThreadId Run := .empty
  warm : Pool ThreadId WarmEngine := .initial
  uncontainedThreads : OrderedMap ThreadId ExecutionId := .empty
  timerCount : Nat := 0
  timers : List Retry := []
  attempts : List Retry := []
  log : List Event := []

def maxIdle : Nat := 8

def setRun (s : State) (threadId : ThreadId) (run : Run) : State := { s with runs := s.runs.set threadId run }

def holdUncontainedThread (s : State) (threadId : ThreadId) (executionId : ExecutionId) : State :=
  { s with
    uncontainedThreads := s.uncontainedThreads.set threadId executionId
    timerCount := s.timerCount + 1
    timers := s.timers ++ [⟨s.timerCount, threadId, executionId⟩]
    log := s.log ++ [Event.held threadId executionId] }

/-- The end of `#retireWarmEngine`. -/
def retireWarmEngine (s : State) (engine : WarmEngine) : TerminationProof → State
  | .proven => s
  | .unknown => holdUncontainedThread s engine.threadId engine.scope

/-- What `terminate` gives a retry. -/
def resolve (s : State) (attempt : Retry) : TerminationProof → State
  | .unknown => s
  | .proven =>
    { s with
      timers := s.timers.filter fun retry => retry.timer ≠ attempt.timer
      uncontainedThreads :=
        if s.uncontainedThreads.get attempt.threadId = some attempt.executionId
        then s.uncontainedThreads.delete attempt.threadId
        else s.uncontainedThreads
      log := s.log ++ [Event.proven attempt.threadId attempt.executionId] }

/-- `#admitExecution`, where its other checks pass or do not. -/
def execute (s : State) (threadId : ThreadId) (executionId : ExecutionId) (admissible : Bool) : State :=
  if !admissible || (s.runs.get threadId).isSome || (s.uncontainedThreads.get threadId).isSome then s
  else
    { setRun s threadId { containmentScope := executionId } with log := s.log ++ [Event.admitted threadId] }

/-- The start of `finally`: the engine is kept, retired, or the Run's own scope is terminated. -/
def finish (s : State) (threadId : ThreadId) (run : Run) (keep : Bool) (now : Int) : State :=
  match run.warmEngine with
  | none => setRun s threadId { run with stage := .terminating }
  | some engine =>
    if keep && run.stage = .started then
      { setRun s threadId { run with stage := .keeping } with
        warm := s.warm.put WarmEngine.threadId maxIdle engine now }
    else setRun s threadId { run with warmEngine := none, stage := .stopping engine }

/-- The engine's start: the one that was taken serves the Run, or the Run starts one, in a scope of its own if it
may be kept. -/
def start (s : State) (threadId : ThreadId) (run : Run) (warmScope : Option ExecutionId) : State :=
  match run.warmEngine with
  | some engine => setRun s threadId { run with containmentScope := engine.scope, stage := .started }
  | none =>
    { setRun s threadId { run with containmentScope := warmScope.getD run.containmentScope, stage := .started } with
      log := s.log ++ [Event.started threadId] }

/-- The end of `finally`. -/
def release (s : State) (threadId : ThreadId) (run : Run) (termination : TerminationProof) : State :=
  let s := match termination with
    | .proven => s
    | .unknown => holdUncontainedThread s threadId run.containmentScope
  { s with runs := s.runs.delete threadId }

inductive Action
  | execute (threadId : ThreadId) (executionId : ExecutionId) (admissible : Bool)
  | take (threadId : ThreadId)
  /-- The engine that was taken is retired, for a recovery or as its key is another. -/
  | retire (threadId : ThreadId)
  | retired (threadId : ThreadId) (termination : TerminationProof)
  | check (threadId : ThreadId)
  | start (threadId : ThreadId) (warmScope : Option ExecutionId)
  /-- The engine that was started is one that may be kept. -/
  | opened (threadId : ThreadId)
  | finish (threadId : ThreadId) (keep : Bool) (now : Int)
  | ended (threadId : ThreadId) (termination : TerminationProof)
  | release (threadId : ThreadId)
  | expire (i : Nat)
  | evict (predicate : WarmEngine → Bool)
  | close
  /-- The pool's retirement of that number ends, and its callback runs. -/
  | settle (i : Nat) (termination : TerminationProof)
  | finished (i : Nat)
  | resume (i : Nat) (now : Int)
  | tick (i : Nat)
  | resolve (i : Nat) (termination : TerminationProof)

/-- The Thread's Run, if it is in the stage. -/
def runIn (s : State) (threadId : ThreadId) (p : Stage → Bool) : Option Run :=
  (s.runs.get threadId).filter fun run => p run.stage

/-- What follows an `await` in the pool; of `take`, in the Run. -/
def resume (s : State) (i : Nat) (now : Int) : Option State :=
  (s.warm.resume WarmEngine.threadId maxIdle i now).bind fun warm =>
    match s.warm.calls[i]? with
    | some (.taking threadId _) =>
      (runIn s threadId (· = .taking)).map fun run =>
        setRun { s with warm } threadId
          { run with stage := .taken, warmEngine := warm.taken.getLast?.bind Taken.engine }
    | _ => some { s with warm }

def step (s : State) : Action → Option State
  | .execute threadId executionId admissible => some (execute s threadId executionId admissible)
  | .take threadId => (runIn s threadId (· = .preparing)).map fun run =>
    { setRun s threadId { run with stage := .taking } with warm := s.warm.take threadId }
  | .retire threadId => (runIn s threadId (· = .taken)).bind fun run => run.warmEngine.map fun engine =>
    setRun s threadId { run with warmEngine := none, stage := .retiring engine }
  | .retired threadId termination => (s.runs.get threadId).bind fun run =>
    match run.stage with
    | .retiring engine => some (retireWarmEngine (setRun s threadId { run with stage := .taken }) engine termination)
    | _ => none
  | .check threadId => (runIn s threadId (· = .taken)).map fun run =>
    if (s.uncontainedThreads.get threadId).isSome then finish s threadId run false 0
    else setRun s threadId { run with stage := .checked }
  | .start threadId warmScope => (runIn s threadId (· = .checked)).map fun run => start s threadId run warmScope
  | .opened threadId => (runIn s threadId (· = .started)).bind fun run =>
    if run.warmEngine.isSome then none
    else some (setRun s threadId { run with warmEngine := some ⟨threadId, run.containmentScope⟩ })
  | .finish threadId keep now =>
    (runIn s threadId fun stage => stage ∈ [.preparing, .taken, .checked, .started]).map fun run =>
      finish s threadId run keep now
  | .ended threadId termination => (s.runs.get threadId).bind fun run =>
    match run.stage with
    | .keeping => some (setRun s threadId { run with stage := .settling .proven })
    | .stopping engine =>
      some (retireWarmEngine (setRun s threadId { run with stage := .settling .proven }) engine termination)
    | .terminating => some (setRun s threadId { run with stage := .settling termination })
    | _ => none
  | .release threadId => (s.runs.get threadId).bind fun run =>
    match run.stage with
    | .settling termination => some (release s threadId run termination)
    | _ => none
  | .expire i => (s.warm.expire WarmEngine.threadId i).map fun warm => { s with warm }
  | .evict predicate => some { s with warm := s.warm.evict WarmEngine.threadId predicate }
  | .close => some { s with warm := s.warm.close WarmEngine.threadId }
  | .settle i termination => (s.warm.settle i).bind fun warm => s.warm.retirements[i]?.map fun retirement =>
    retireWarmEngine { s with warm } retirement.engine termination
  | .finished i => (s.warm.finish WarmEngine.threadId i).map fun warm => { s with warm }
  | .resume i now => resume s i now
  | .tick i => s.timers[i]?.map fun retry => { s with attempts := s.attempts ++ [retry] }
  | .resolve i termination => s.attempts[i]?.map fun attempt =>
    resolve { s with attempts := s.attempts.eraseIdx i } attempt termination

def runner : Machine State Action := ⟨step⟩

end Opensteer.UncontainedThreads
