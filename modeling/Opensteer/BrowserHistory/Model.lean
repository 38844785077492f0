import Opensteer.Framework.Machine
import Opensteer.Framework.OrderedMap

/-!
# The browsing history a client shows

`packages/client/src/host/browser-history.ts`: the values of profiles, their reads and their mutations, each with
its continuations as steps of their own. A profile's object is known by a number, as the continuations hold on to
the object they began with. `#mutate` waits for its mutation before any read that waits for it does, so a mutation
settles and is concluded in one step, and a read goes on when those it waits for are concluded. Icons are left
out. The log is what happened, for the theorems.
-/

namespace Opensteer.BrowserHistory

structure ViewerIdentity where
  deploymentId : String
  userId : String
deriving DecidableEq, Repr

structure Entry where
  url : String
  title : String
  typedCount : Nat
  visitCount : Nat
  lastVisitAt : String
deriving DecidableEq, Repr

structure Icon where
  origin : String
  iconRef : String
deriving DecidableEq, Repr

structure History where
  entries : List Entry := []
  icons : List Icon := []
deriving DecidableEq, Repr

def empty : History := {}

/-- What a mutation does to a value. -/
inductive Change
  | remove (url : String)
  | clear
deriving DecidableEq, Repr

section

-- `new URL(url).origin`.
variable (origin : String → String)

def Change.update : Change → History → History
  | .remove url, value =>
    let entries := value.entries.filter fun entry => entry.url ≠ url
    let origins := entries.map fun entry => origin entry.url
    { entries, icons := value.icons.filter fun icon => icon.origin ∈ origins }
  | .clear, _ => empty

structure ProfileHistory where
  value : History := empty
  version : Nat := 0
  stale : Bool := false
  failed : Bool := false
  /-- A read. -/
  pending : Option Nat := none
  mutations : List Nat := []
  /-- Which object this is. -/
  object : Nat
deriving DecidableEq, Repr

/-- How far a read is: it waits for the mutations, the Host has been asked, or it is over but for its `finally`. -/
inductive Phase
  | waiting
  | dispatched
  | settled
deriving DecidableEq, Repr

structure Read where
  id : Nat
  profileId : String
  object : Nat
  version : Nat
  mutations : List Nat
  phase : Phase := .waiting
deriving DecidableEq, Repr

structure Mutation where
  id : Nat
  profileId : String
  object : Nat
  dispatched : Bool := false
deriving DecidableEq, Repr

inductive Event
  /-- A change notice. -/
  | noticed (profileId : String)
  /-- A call of `load` makes a read, which waits for the mutations. -/
  | loading (profileId : String)
  | dispatched (read : Nat) (profileId : String)
  | installed (read : Nat) (profileId : String) (value : History)
  | readFailed (read : Nat) (profileId : String)
  /-- A mutation begins, and discards a pending read or finds none made yet, or does not. -/
  | began (mutation : Nat) (profileId : String) (change : Change) (discards : Bool)
  | settled (mutation : Nat)
  | dropped (profileId : String)
  | rescoped
  | disconnected
deriving DecidableEq, Repr

structure State where
  scope : Option ViewerIdentity := none
  profiles : OrderedMap String ProfileHistory := .empty
  connected : Bool := false
  listeners : Nat
  reads : List Read := []
  mutations : List Mutation := []
  readCount : Nat := 0
  mutationCount : Nat := 0
  objectCount : Nat := 0
  log : List Event := []

/-- `#profile`. -/
def profile (s : State) (profileId : String) : ProfileHistory × State :=
  match s.profiles.get profileId with
  | some state => (state, s)
  | none =>
    let state : ProfileHistory := { object := s.objectCount }
    (state, { s with profiles := s.profiles.set profileId state, objectCount := s.objectCount + 1 })

/-- The part of `load` that makes a read. -/
def startRead (s : State) (profileId : String) (state : ProfileHistory) : State :=
  { s with
    profiles := s.profiles.set profileId { state with stale := false, pending := some s.readCount }
    reads := s.reads ++ [{
      id := s.readCount, profileId, object := state.object, version := state.version, mutations := state.mutations }]
    readCount := s.readCount + 1
    log := s.log ++ [Event.loading profileId] }

def load (s : State) (profileId : String) : State :=
  if s.scope.isNone || profileId = "" then s
  else
    let (state, s) := profile s profileId
    if state.pending.isSome then s else startRead s profileId state

/-- Whether the object is the profile's. -/
def live (s : State) (profileId : String) (object : Nat) : Option ProfileHistory :=
  (s.profiles.get profileId).filter fun state => state.object = object

def current (s : State) (read : Read) : Option ProfileHistory :=
  (live s read.profileId read.object).filter fun state => state.version = read.version

def setPhase (s : State) (read : Read) (phase : Phase) : State :=
  { s with reads := s.reads.map fun read' => if read'.id = read.id then { read' with phase } else read' }

/-- The mutations a read waits for have settled. -/
def proceed (s : State) (read : Read) : State :=
  match current s read with
  | none => setPhase s read .settled
  | some _ => { setPhase s read .dispatched with log := s.log ++ [Event.dispatched read.id read.profileId] }

/-- The Host answers a read, or the read fails. -/
def answer (s : State) (read : Read) (result : Option History) : State :=
  let s := setPhase s read .settled
  match current s read, result with
  | none, _ => s
  | some state, some value =>
    { s with
      profiles := s.profiles.set read.profileId { state with value, failed := false }
      log := s.log ++ [Event.installed read.id read.profileId value] }
  | some state, none =>
    { s with
      profiles := s.profiles.set read.profileId { state with failed := true }
      log := s.log ++ [Event.readFailed read.id read.profileId] }

/-- The `finally` of a read. -/
def finish (s : State) (read : Read) : State :=
  let s := { s with reads := s.reads.filter fun read' => read'.id ≠ read.id }
  match live s read.profileId read.object with
  | none => s
  | some state =>
    if state.pending ≠ some read.id then s
    else
      let s := { s with profiles := s.profiles.set read.profileId { state with pending := none } }
      if state.stale && 0 < s.listeners then load s read.profileId else s

def changed (s : State) (profileId : String) : State :=
  let s : State := { s with log := s.log ++ [Event.noticed profileId] }
  match s.profiles.get profileId with
  | none => s
  | some state =>
    let s := { s with profiles := s.profiles.set profileId { state with stale := true } }
    if 0 < s.listeners then load s profileId else s

def changedAll (s : State) : State := s.profiles.keys.foldl changed s

/-- `#mutate`, up to its `await`. -/
def mutate (s : State) (profileId : String) (change : Change) : State :=
  if s.scope.isNone || profileId = "" then s
  else
    let discards := (s.profiles.get profileId).all fun state => state.pending.isSome
    let (state, s) := profile s profileId
    { s with
      profiles := s.profiles.set profileId
        { state with
          value := change.update origin state.value
          version := state.version + 1
          pending := none
          mutations := state.mutations ++ [s.mutationCount] }
      mutations := s.mutations ++ [{ id := s.mutationCount, profileId, object := state.object }]
      mutationCount := s.mutationCount + 1
      log := s.log ++ [Event.began s.mutationCount profileId change discards] }

/-- A mutation is over. -/
def settled (s : State) (mutation : Mutation) : State :=
  { s with
    mutations := s.mutations.filter fun mutation' => mutation'.id ≠ mutation.id
    log := s.log ++ [Event.settled mutation.id] }

/-- The Host is told of a mutation, if the profile is still the one it is of. -/
def dispatch (s : State) (mutation : Mutation) : State :=
  match live s mutation.profileId mutation.object with
  | none => settled s mutation
  | some _ =>
    { s with
      mutations := s.mutations.map fun mutation' =>
        if mutation'.id = mutation.id then { mutation' with dispatched := true } else mutation' }

/-- `state.mutations.delete(mutation)`. -/
def forget (s : State) (mutation : Mutation) : State :=
  match live s mutation.profileId mutation.object with
  | none => s
  | some state =>
    { s with
      profiles := s.profiles.set mutation.profileId
        { state with mutations := state.mutations.filter fun id => id ≠ mutation.id } }

/-- A mutation settles, and `#mutate` goes on behind its `await`. -/
def conclude (s : State) (mutation : Mutation) (fulfilled : Bool) : State :=
  let s := settled s mutation
  match live s mutation.profileId mutation.object with
  | none => s
  | some state =>
    if fulfilled then forget s mutation
    else
      let s := { s with profiles := s.profiles.set mutation.profileId { state with value := empty } }
      forget (load s mutation.profileId) mutation

def drop (s : State) (profileId : String) : State :=
  { s with profiles := s.profiles.delete profileId, log := s.log ++ [Event.dropped profileId] }

/-- The key of a scope is its two parts. -/
def setScope (s : State) (scope : Option ViewerIdentity) : State :=
  if scope = s.scope then s else { s with scope, profiles := .empty, log := s.log ++ [Event.rescoped] }

def disconnect (s : State) : State :=
  { s with
    profiles := s.profiles.mapValues fun state => { state with version := state.version + 1, pending := none }
    connected := false
    log := s.log ++ [Event.disconnected] }

def setConnected (s : State) (connected : Bool) : State :=
  if connected && !s.connected then s.profiles.keys.foldl load { s with connected := true }
  else if !connected && s.connected then disconnect s
  else s

inductive Action
  | load (profileId : Option String)
  | proceed (read : Nat)
  | answer (read : Nat) (result : Option History)
  | finish (read : Nat)
  | changed (profileId : String)
  | changedAll
  | mutate (profileId : Option String) (change : Change)
  | dispatch (mutation : Nat)
  | conclude (mutation : Nat) (fulfilled : Bool)
  | drop (profileId : String)
  | setScope (scope : Option ViewerIdentity)
  | setConnected (connected : Bool)
deriving DecidableEq, Repr

/-- The read, if it is in the phase. -/
def readIn (s : State) (id : Nat) (phase : Phase) : Option Read :=
  s.reads.find? fun read => read.id = id && read.phase = phase

/-- The mutation, if it has been dispatched or not. -/
def mutationIn (s : State) (id : Nat) (dispatched : Bool) : Option Mutation :=
  s.mutations.find? fun mutation => mutation.id = id && mutation.dispatched = dispatched

def step (s : State) : Action → Option State
  | .load profileId => some (profileId.elim s (load s))
  | .proceed id =>
    (readIn s id .waiting).bind fun read =>
      if read.mutations.any fun id => s.mutations.any fun mutation => mutation.id = id then none
      else some (proceed s read)
  | .answer id result => (readIn s id .dispatched).map fun read => answer s read result
  | .finish id => (readIn s id .settled).map fun read => finish s read
  | .changed profileId => some (changed s profileId)
  | .changedAll => some (changedAll s)
  | .mutate profileId change => some (profileId.elim s fun profileId => mutate origin s profileId change)
  | .dispatch id => (mutationIn s id false).map (dispatch s)
  | .conclude id fulfilled => (mutationIn s id true).map fun mutation => conclude s mutation fulfilled
  | .drop profileId => some (drop s profileId)
  | .setScope scope => some (setScope s scope)
  | .setConnected connected => some (setConnected s connected)

def client : Machine State Action := ⟨step origin⟩

end

/-- A client with its listeners. -/
def start (listeners : Nat) : State := { listeners }

end Opensteer.BrowserHistory
