import Mathlib.Logic.Function.Basic
import Opensteer.Framework.Machine
import Opensteer.Framework.OrderedMap

/-!
# The pool of warm engines

`WarmEnginePool` of `runner/src/runtime/warm-engine-pool.ts`, with every engine it was ever given, those that
`take` handed out and were not put again, and every retirement that it began.

An action of `machine` is one stretch of code that runs without waiting: a call up to where it first waits, a
timer's callback, a promise of `#retire` that settles, the callback of its `finally`, or what follows an
`await` (`resume`). A call of `evict` or `close`, and of `put` on a closed pool, does nothing after it has
waited, and is not among the calls that wait.
-/

namespace Opensteer.WarmEnginePool

variable {ThreadId Engine : Type}

structure Idle (Engine : Type) where
  engine : Engine
  timer : Nat
  since : Int

/-- Where the promise is that `#retiring` keeps: `#retire` has not settled, `finally` has not run, or neither. -/
inductive Phase
  | running
  | settled
  | finished
deriving DecidableEq

structure Retirement (Engine : Type) where
  engine : Engine
  phase : Phase

/-- A call that waits for the retirement of that number. -/
inductive Call (ThreadId Engine : Type)
  | taking (threadId : ThreadId) (retiring : Option Nat)
  | replacing (engine : Engine) (retiring : Nat)
  | trimming (retiring : Nat)

/-- What `take` resolved to, and the engines of the Thread that were being retired then. -/
structure Taken (ThreadId Engine : Type) where
  threadId : ThreadId
  engine : Option Engine
  underWay : List Engine

structure Pool (ThreadId Engine : Type) where
  idle : OrderedMap ThreadId (Idle Engine)
  retiring : ThreadId → Option Nat
  closed : Bool
  /-- The timers that are set, by their numbers. -/
  timers : List (Nat × Engine)
  nextTimer : Nat
  retirements : List (Retirement Engine)
  calls : List (Call ThreadId Engine)
  given : List Engine
  handedOut : List Engine
  taken : List (Taken ThreadId Engine)

namespace Pool

def initial : Pool ThreadId Engine := ⟨.empty, fun _ => none, false, [], 0, [], [], [], [], []⟩

/-- The retirement of that number has ended. -/
def ended (v : Pool ThreadId Engine) (retiring : Nat) : Bool :=
  v.retirements[retiring]?.any (·.phase = .finished)

variable [DecidableEq ThreadId] [DecidableEq Engine] (threadId : Engine → ThreadId) (maxIdle : Nat)

/-- The engines of the Thread that are being retired. -/
def underWay (v : Pool ThreadId Engine) (thread : ThreadId) : List Engine :=
  (v.retirements.filter fun r => r.phase = .running ∧ threadId r.engine = thread).map (·.engine)

def retireTracked (v : Pool ThreadId Engine) (engine : Engine) : Pool ThreadId Engine :=
  { v with
    retirements := v.retirements ++ [⟨engine, .running⟩]
    retiring := Function.update v.retiring (threadId engine) (some v.retirements.length) }

/-- `this.#idle.delete(threadId)` and `clearTimeout(idle.timer)`. -/
def remove (v : Pool ThreadId Engine) (thread : ThreadId) (idle : Idle Engine) : Pool ThreadId Engine :=
  { v with idle := v.idle.delete thread, timers := v.timers.filter (·.1 ≠ idle.timer) }

/-- The first of the entries that have been idle longest. -/
def oldest : List (ThreadId × Idle Engine) → Option (ThreadId × Idle Engine)
  | [] => none
  | entry :: entries => some (entries.foldl (fun left right => if right.2.since < left.2.since then right else left) entry)

/-- The loop of `put`, up to where it waits. -/
def trim (v : Pool ThreadId Engine) : Pool ThreadId Engine :=
  if maxIdle < v.idle.size then
    match oldest v.idle.entries with
    | none => v
    | some (thread, idle) =>
      let v := (v.remove thread idle).retireTracked threadId idle.engine
      { v with calls := v.calls ++ [Call.trimming (v.retirements.length - 1)] }
  else v

/-- What `put` does once there is nothing left to replace. -/
def insert (v : Pool ThreadId Engine) (engine : Engine) (now : Int) : Pool ThreadId Engine :=
  trim threadId maxIdle { v with
    timers := v.timers ++ [(v.nextTimer, engine)]
    nextTimer := v.nextTimer + 1
    idle := v.idle.set (threadId engine) ⟨engine, v.nextTimer, now⟩ }

def put (v : Pool ThreadId Engine) (engine : Engine) (now : Int) : Pool ThreadId Engine :=
  let v : Pool ThreadId Engine := { v with
    given := if engine ∈ v.given then v.given else v.given ++ [engine]
    handedOut := v.handedOut.erase engine }
  if v.closed then v.retireTracked threadId engine
  else
    match v.idle.get (threadId engine) with
    | some previous =>
      let v := (v.remove (threadId engine) previous).retireTracked threadId previous.engine
      { v with calls := v.calls ++ [Call.replacing engine (v.retirements.length - 1)] }
    | none => v.insert threadId maxIdle engine now

def take (v : Pool ThreadId Engine) (thread : ThreadId) : Pool ThreadId Engine :=
  { v with calls := v.calls ++ [Call.taking thread (v.retiring thread)] }

/-- What `take` does once it has waited. -/
def hand (v : Pool ThreadId Engine) (thread : ThreadId) : Pool ThreadId Engine :=
  match v.idle.get thread with
  | none => { v with taken := v.taken ++ [⟨thread, none, v.underWay threadId thread⟩] }
  | some idle =>
    let v := v.remove thread idle
    { v with
      handedOut := idle.engine :: v.handedOut
      taken := v.taken ++ [⟨thread, some idle.engine, v.underWay threadId thread⟩] }

def evict (v : Pool ThreadId Engine) (predicate : Engine → Bool) : Pool ThreadId Engine :=
  let matching := v.idle.entries.filter fun entry => predicate entry.2.engine
  let v := matching.foldl (fun v entry => v.remove entry.1 entry.2) v
  matching.foldl (fun v entry => v.retireTracked threadId entry.2.engine) v

def close (v : Pool ThreadId Engine) : Pool ThreadId Engine :=
  evict threadId { v with closed := true } fun _ => true

/-- The callback of the timer at that place. -/
def expire (v : Pool ThreadId Engine) (i : Nat) : Option (Pool ThreadId Engine) :=
  v.timers[i]?.map fun timer =>
    let engine := timer.2
    let v : Pool ThreadId Engine := { v with timers := v.timers.eraseIdx i }
    if (v.idle.get (threadId engine)).map (·.engine) ≠ some engine then v
    else { v with idle := v.idle.delete (threadId engine) }.retireTracked threadId engine

/-- The promise that `#retire` gave settles. -/
def settle (v : Pool ThreadId Engine) (i : Nat) : Option (Pool ThreadId Engine) :=
  match v.retirements[i]? with
  | some ⟨engine, .running⟩ => some { v with retirements := v.retirements.set i ⟨engine, .settled⟩ }
  | _ => none

/-- The callback that is given to `finally`. -/
def finish (v : Pool ThreadId Engine) (i : Nat) : Option (Pool ThreadId Engine) :=
  match v.retirements[i]? with
  | some ⟨engine, .settled⟩ => some { v with
      retirements := v.retirements.set i ⟨engine, .finished⟩
      retiring :=
        if v.retiring (threadId engine) = some i then Function.update v.retiring (threadId engine) none else v.retiring }
  | _ => none

/-- What follows the `await` of the call at that place. -/
def resume (v : Pool ThreadId Engine) (i : Nat) (now : Int) : Option (Pool ThreadId Engine) :=
  let rest : Pool ThreadId Engine := { v with calls := v.calls.eraseIdx i }
  match v.calls[i]? with
  | some (.taking thread retiring) => if retiring.all v.ended then some (rest.hand threadId thread) else none
  | some (.replacing engine retiring) => if v.ended retiring then some (rest.insert threadId maxIdle engine now) else none
  | some (.trimming retiring) => if v.ended retiring then some (rest.trim threadId maxIdle) else none
  | none => none

end Pool

inductive Action (ThreadId Engine : Type)
  | put (engine : Engine) (now : Int)
  | take (thread : ThreadId)
  | evict (predicate : Engine → Bool)
  | close
  | expire (i : Nat)
  | settle (i : Nat)
  | finish (i : Nat)
  | resume (i : Nat) (now : Int)

variable [DecidableEq ThreadId] [DecidableEq Engine] (threadId : Engine → ThreadId) (maxIdle : Nat)

/-- A Run puts the engine that it started or that it took: one that was never put, or that was handed out. -/
def machine : Machine (Pool ThreadId Engine) (Action ThreadId Engine) where
  step v
    | .put engine now =>
      if engine ∈ v.given → engine ∈ v.handedOut then some (v.put threadId maxIdle engine now) else none
    | .take thread => some (v.take thread)
    | .evict predicate => some (v.evict threadId predicate)
    | .close => some (v.close threadId)
    | .expire i => v.expire threadId i
    | .settle i => v.settle i
    | .finish i => v.finish threadId i
    | .resume i now => v.resume threadId maxIdle i now

end Opensteer.WarmEnginePool
