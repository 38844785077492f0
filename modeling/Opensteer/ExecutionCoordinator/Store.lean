import Opensteer.ExecutionCoordinator.Model

/-!
# The coordinator and its Store

The coordinator with the commands that the Store of `packages/database/src/command-store.ts` has pending, the
listing that the running poll has read, and what is known of each command's dispatches (`World.log`, the last
first). What the Store does for the coordinator takes effect at one moment while the coordinator waits:
`listPendingCommands` reads, `claimCommand` claims or not, `retryCommand` returns the command to the pending
ones, unless its Run ends instead. A pending `run.execute` is hidden from a listing while its Workspace is not
available, its Thread's queue is paused or an earlier Run of the Thread has not ended. Others add commands to
the pending ones and take them away.

The coordinator is not stopped here, and no operation of the Store fails; a callback may still throw.
-/

namespace Opensteer.ExecutionCoordinator

variable {threadOf : RunId → ThreadId}

inductive Event
  | dispatched (id : CommandId) (now : Nat)
  /-- A rejection for retry is recorded, of a command that is pending. -/
  | rejected (id : CommandId) (now : Nat)
  /-- A dispatch comes to another end. -/
  | ended (id : CommandId)
  /-- The command is no longer pending, and was not claimed by the coordinator. -/
  | left (id : CommandId)
deriving DecidableEq

structure World (threadOf : RunId → ThreadId) where
  coordinator : Coordinator threadOf
  pending : Finset CommandId
  hidden : Finset CommandId
  /-- How `claimCommand` will resolve, of the commands it has decided on. -/
  claims : CommandId → Option Claim
  /-- The commands that `retryCommand` has settled, and has not resolved for. -/
  retried : Finset CommandId
  listing : Option (List (PendingCommandRow threadOf))
  /-- The commands that were neither pending nor being dispatched when the last poll started, nor pending since. -/
  gone : CommandId → Bool
  log : List Event

namespace World

def initial : World threadOf := ⟨.initial, ∅, ∅, fun _ => none, ∅, none, fun _ => false, []⟩

/-- A poll waits for its listing. -/
def polls (c : Coordinator threadOf) : Bool :=
  match c.reading with
  | some (.reading _) => true
  | _ => false

/-- What the coordinator has done, and maybe started to poll. -/
def advance (w : World threadOf) (c : Coordinator threadOf) : World threadOf :=
  if polls c ∧ ¬ polls w.coordinator then
    { w with coordinator := c, gone := fun id => id ∉ w.pending ∧ id ∉ c.dispatchingIds }
  else { w with coordinator := c }

def note (w : World threadOf) (event : Event) : World threadOf := { w with log := event :: w.log }

/-- What a stretch of the coordinator that pumps adds to the dispatches that went on. -/
def noteDispatches (w : World threadOf) (before now : Nat) : World threadOf :=
  { w with
    log := ((w.coordinator.dispatches.drop before).map fun d => .dispatched d.command.id now).reverse ++ w.log }

end World

inductive WorldAction (threadOf : RunId → ThreadId)
  | start
  | wake
  | timerFires
  | reads (commands : List (PendingCommandRow threadOf))
  | pollListed (out : Outside threadOf)
  | passEnds
  | claimCommits (i : Nat) (claim : Claim)
  | claimSettles (i : Nat)
  | dispatchResolves (i : Nat)
  | dispatchRejects (i : Nat) (error : DispatchError)
  | retryCommits (i : Nat) (pending : Bool)
  | retryResolves (i : Nat) (now : Nat)
  | recordResolves (i : Nat)
  | executeRejects (i : Nat)
  | finallyRuns (i : Nat) (out : Outside threadOf)
  | appears (id : CommandId)
  | leaves (id : CommandId)
  | hides (id : CommandId)
  | shows (id : CommandId)

namespace World

variable (o : Options)

/-- What the listing that is read holds: the pending commands that are not hidden, which fit its limit. -/
def reads (w : World threadOf) (commands : List (PendingCommandRow threadOf)) : Option (World threadOf) :=
  if polls w.coordinator ∧ w.listing = none ∧ commands.length ≤ o.maxQueuedCommands ∧
      (commands.map PendingCommandRow.id).toFinset = w.pending \ w.hidden then
    some { w with listing := some commands }
  else none

def pollListed (w : World threadOf) (out : Outside threadOf) : Option (World threadOf) :=
  match w.listing with
  | none => none
  | some commands =>
    (step o w.coordinator (.pollListed out commands)).map fun c =>
      ({ w with listing := none }.advance c).noteDispatches w.coordinator.dispatches.length out.now

/-- A pending command is claimed; or, pending or not, none is. -/
def claimCommits (w : World threadOf) (i : Nat) (claim : Claim) : Option (World threadOf) :=
  match w.coordinator.dispatches[i]? with
  | some ⟨command, .claiming⟩ =>
    if w.claims command.id ≠ none then none
    else
      match claim with
      | .rolledBack => none
      | .notPending => some { w with claims := Function.update w.claims command.id (some claim) }
      | .claimed | .terminalFailure =>
        if command.id ∈ w.pending then
          some { w with
            pending := w.pending.erase command.id
            claims := Function.update w.claims command.id (some claim) }
        else none
  | _ => none

def claimSettles (w : World threadOf) (i : Nat) : Option (World threadOf) :=
  match w.coordinator.dispatches[i]? with
  | some ⟨command, .claiming⟩ =>
    match w.claims command.id with
    | none => none
    | some claim =>
      (step o w.coordinator (.claimSettles i claim)).map fun c =>
        let w := { w with claims := Function.update w.claims command.id none }.advance c
        if claim = .claimed then w else w.note (.ended command.id)
  | _ => none

def dispatchResolves (w : World threadOf) (i : Nat) : Option (World threadOf) :=
  match w.coordinator.dispatches[i]? with
  | some ⟨command, .dispatching⟩ =>
    (step o w.coordinator (.dispatchResolves i)).map fun c => (w.advance c).note (.ended command.id)
  | _ => none

def dispatchRejects (w : World threadOf) (i : Nat) (error : DispatchError) : Option (World threadOf) :=
  match w.coordinator.dispatches[i]? with
  | some ⟨command, .dispatching⟩ =>
    (step o w.coordinator (.dispatchRejects i error)).map fun c =>
      if afterDispatchError command.type (normalizeDispatchError error) = .retrying then w.advance c
      else (w.advance c).note (.ended command.id)
  | _ => none

def appears (w : World threadOf) (id : CommandId) : World threadOf :=
  { w with pending := insert id w.pending, gone := Function.update w.gone id false }

def retryCommits (w : World threadOf) (i : Nat) (pending : Bool) : Option (World threadOf) :=
  match w.coordinator.dispatches[i]? with
  | some ⟨command, .retrying⟩ =>
    if command.id ∈ w.retried then none
    else
      let w := { w with retried := insert command.id w.retried }
      some (if pending then w.appears command.id else w)
  | _ => none

def retryResolves (w : World threadOf) (i : Nat) (now : Nat) : Option (World threadOf) :=
  match w.coordinator.dispatches[i]? with
  | some ⟨command, .retrying⟩ =>
    if command.id ∈ w.retried then
      (step o w.coordinator (.retryResolves i now)).map fun c =>
        ({ w with retried := w.retried.erase command.id }.advance c).note
          (if command.id ∈ w.pending then .rejected command.id now else .ended command.id)
    else none
  | _ => none

/-- A callback throws, once the Store has done what it was asked for. -/
def executeRejects (w : World threadOf) (i : Nat) : Option (World threadOf) :=
  match w.coordinator.dispatches[i]? with
  | none | some ⟨_, .retrying⟩ => none
  | some ⟨command, phase⟩ =>
    if phase = .claiming ∧ w.claims command.id = none then none
    else
      (step o w.coordinator (.executeRejects i)).map fun c =>
        ({ w with claims := Function.update w.claims command.id none }.advance c).note (.ended command.id)

def finallyRuns (w : World threadOf) (i : Nat) (out : Outside threadOf) : Option (World threadOf) :=
  (step o w.coordinator (.finallyRuns i out)).map fun c =>
    (w.advance c).noteDispatches (w.coordinator.dispatches.length - 1) out.now

def machine : Machine (World threadOf) (WorldAction threadOf) where
  step w
    | .start => (step o w.coordinator .start).map w.advance
    | .wake => (step o w.coordinator .wake).map w.advance
    | .timerFires => (step o w.coordinator .timerFires).map w.advance
    | .reads commands => w.reads o commands
    | .pollListed out => w.pollListed o out
    | .passEnds => (step o w.coordinator .passEnds).map w.advance
    | .claimCommits i claim => w.claimCommits i claim
    | .claimSettles i => w.claimSettles o i
    | .dispatchResolves i => w.dispatchResolves o i
    | .dispatchRejects i error => w.dispatchRejects o i error
    | .retryCommits i pending => w.retryCommits i pending
    | .retryResolves i now => w.retryResolves o i now
    | .recordResolves i => (step o w.coordinator (.recordResolves i)).map w.advance
    | .executeRejects i => w.executeRejects o i
    | .finallyRuns i out => w.finallyRuns o i out
    | .appears id => some (w.appears id)
    | .leaves id => some ({ w with pending := w.pending.erase id }.note (.left id))
    | .hides id => some { w with hidden := insert id w.hidden }
    | .shows id => some { w with hidden := w.hidden.erase id }

end World

end Opensteer.ExecutionCoordinator
