import Opensteer.Framework.Machine
import Opensteer.Framework.OrderedMap

/-!
# The sessions an adapter holds

`HarnessSessionRegistry`: a reference is claimed by one session, from the moment the provider is
asked for it, or, where the reference is not known before, once the provider has answered. A
session that comes too late, to a closed registry or to a reference that is held, is stopped.

A call of `open` or `openUnreferenced` is named by the number of them before it, and goes on in
steps: its start settles, it goes on behind an `await`, the stop it awaits settles. The calls of
`close` go on likewise. A step of `machine` is a call, or such a step of one.
-/

namespace Opensteer

namespace SessionRegistry

/-- What an open is rejected with. -/
inductive OpenError (ε : Type)
  | conflict
  | closed
  | start (error : ε)
  | stop (error : ε)

/-- How far a call of `open` or `openUnreferenced` is. -/
inductive Phase (ε : Type)
  /-- Refused, with nothing started. -/
  | refused
  /-- `await opening` -/
  | opening
  /-- Behind `await opening`, which has settled. -/
  | opened
  /-- `await session.stop()` for a reference that is held. -/
  | yielding
  /-- In `catch`, before its `await opening` is over. -/
  | catching (error : OpenError ε)
  /-- In `catch`, at `await session.stop()`. -/
  | stopping (error : OpenError ε)
  | returned
  | rejected (error : OpenError ε)

/-- A call of `open`, or of `openUnreferenced`, which has no reference. `outcome` is that of its
start. -/
structure Call (ρ ε S : Type) where
  reference : Option ρ
  outcome : Option (Except ε S) := none
  phase : Phase ε := .opening

/-- How far a call of `close` is; `begun` are the opens called before it. -/
inductive Close
  | waiting (begun : Nat) (opening : List Nat)
  | stopping (begun : Nat)
  /-- `first` is that it closed the registry. -/
  | resolved (begun : Nat) (first : Bool)

/-- A registry with the calls made of it. `stops` are the sessions `stop` was called of, and
`released` the opens whose sessions were released after they were returned. -/
structure World (ρ ε S : Type) where
  closed : Bool := false
  sessions : OrderedMap ρ S := .empty
  keyedOpens : OrderedMap ρ Nat := .empty
  anonymousOpens : List Nat := []
  calls : List (Call ρ ε S) := []
  closes : List Close := []
  stops : List S := []
  released : List Nat := []

inductive Action (ρ ε S : Type)
  | open_ (reference : ρ)
  | openUnreferenced
  | startSettles (call : Nat) (outcome : Except ε S)
  | goOn (call : Nat)
  | stopSettles (call : Nat) (outcome : Except ε Unit)
  | release (session : S)
  | close
  | closeGoesOn (close : Nat)
  | closeResolves (close : Nat)

variable {ρ ε S : Type} [DecidableEq ρ] [DecidableEq S]

/-- `providerSessionReference` -/
class HasReference (ρ S : Type) where
  providerSessionReference : S → ρ

variable [HasReference ρ S]

namespace World

variable (w : World ρ ε S)

def holds (reference : ρ) : Bool :=
  (w.sessions.get reference).isSome || (w.keyedOpens.get reference).isSome

def put (call : Nat) (c : Call ρ ε S) : World ρ ε S := { w with calls := w.calls.set call c }

/-- The `finally` of a call that settles. -/
def leave (call : Nat) (reference : Option ρ) : World ρ ε S :=
  match reference with
  | some reference => { w with keyedOpens := w.keyedOpens.delete reference }
  | none => { w with anonymousOpens := w.anonymousOpens.erase call }

def stop (session : S) : World ρ ε S := { w with stops := w.stops ++ [session] }

/-- The reference a session is held under. -/
def key (reference : Option ρ) (session : S) : ρ :=
  reference.getD (HasReference.providerSessionReference session)

/-- A session that came to an open registry. -/
def take (call : Nat) (c : Call ρ ε S) (session : S) : World ρ ε S :=
  let reference := key c.reference session
  if (w.sessions.get reference).isSome then
    -- `openUnreferenced` is out of its `finally` here, `open` is not.
    let w := if c.reference.isNone then w.leave call none else w
    (w.stop session).put call { c with phase := .yielding }
  else
    ({ w with sessions := w.sessions.set reference session }.leave call c.reference).put call
      { c with phase := .returned }

/-- The session of an open that has settled. -/
def sessionOf (call : Nat) : Option S :=
  match w.calls[call]? with
  | some { outcome := some (.ok session), .. } => some session
  | _ => none

def settled (call : Nat) : Bool := (w.calls[call]?).any (·.outcome.isSome)

end World

def step (w : World ρ ε S) : Action ρ ε S → Option (World ρ ε S)
  | .open_ reference =>
    some <|
      if w.holds reference then
        { w with calls := w.calls ++ [{ reference := some reference, phase := .refused }] }
      else
        { w with
          keyedOpens := w.keyedOpens.set reference w.calls.length
          calls := w.calls ++ [{ reference := some reference }] }
  | .openUnreferenced =>
    some { w with
      anonymousOpens := w.anonymousOpens ++ [w.calls.length]
      calls := w.calls ++ [{ reference := none }] }
  | .startSettles call outcome =>
    match w.calls[call]? with
    | some ⟨reference, _, .opening⟩ => some (w.put call ⟨reference, some outcome, .opened⟩)
    | _ => none
  | .goOn call =>
    match w.calls[call]? with
    | some ⟨reference, some (.ok session), .opened⟩ =>
      some <|
        if w.closed then w.put call ⟨reference, some (.ok session), .catching .closed⟩
        else w.take call ⟨reference, some (.ok session), .opened⟩ session
    | some ⟨reference, some (.error error), .opened⟩ =>
      some (w.put call ⟨reference, some (.error error), .catching (.start error)⟩)
    | some ⟨reference, some (.ok session), .catching error⟩ =>
      some ((w.stop session).put call ⟨reference, some (.ok session), .stopping error⟩)
    | some ⟨reference, some (.error thrown), .catching error⟩ =>
      some ((w.leave call reference).put call ⟨reference, some (.error thrown), .rejected error⟩)
    | _ => none
  | .stopSettles call outcome =>
    match w.calls[call]? with
    | some ⟨reference, opened, .yielding⟩ =>
      let error := match outcome with
        | .ok _ => .conflict
        | .error error => .stop error
      some <| w.put call ⟨reference, opened,
        if reference.isSome then .catching error else .rejected error⟩
    | some ⟨reference, opened, .stopping error⟩ =>
      let error := match outcome with
        | .ok _ => error
        | .error error => .stop error
      some ((w.leave call reference).put call ⟨reference, opened, .rejected error⟩)
    | _ => none
  | .release session =>
    let references := (w.sessions.entries.filter (·.2 = session)).map (·.1)
    some { w with
      sessions := references.foldl OrderedMap.delete w.sessions
      released := w.released ++ (List.range w.calls.length).filter fun call =>
        (w.calls[call]?).any (fun c => match c.phase with
          | .returned => true
          | _ => false) && w.sessionOf call = some session }
  | .close =>
    some <|
      if w.closed then { w with closes := w.closes ++ [Close.resolved w.calls.length false] }
      else
        { w with
          closed := true
          closes := w.closes ++
            [.waiting w.calls.length (w.keyedOpens.values ++ w.anonymousOpens)] }
  | .closeGoesOn close =>
    match w.closes[close]? with
    | some (.waiting begun opening) =>
      if opening.all w.settled then
        some { w with
          sessions := .empty
          keyedOpens := .empty
          stops := w.stops ++ (w.sessions.values ++ opening.filterMap w.sessionOf).eraseDups
          closes := w.closes.set close (.stopping begun) }
      else none
    | _ => none
  | .closeResolves close =>
    match w.closes[close]? with
    | some (.stopping begun) => some { w with closes := w.closes.set close (.resolved begun true) }
    | _ => none

def machine : Machine (World ρ ε S) (Action ρ ε S) where
  step := step

end SessionRegistry

end Opensteer
