import Opensteer.Core.Json
import Opensteer.Core.Text
import Opensteer.Framework.Decimal
import Opensteer.Framework.Machine
import Opensteer.Framework.OrderedMap

/-!
# A pool of connections

`McpConnectionPool`: what `withConnection` opened for a key is kept idle under it when its use is
over, and lent to the next call of that key, unless it stood idle too long. What a promise does, and
when, is in the actions; the calls of `withConnection`, and the connections, are named by the number
of them before. A connection that is opened, or idle, is held from the step in which the call gets
it, and its `close` gives a promise and does not throw.

`overtaken`, `quiet` and `dead`, which the pool does not have, say which calls a `close` found in
progress, that no call began since one, and which connections were used in a session that was dead.
-/

namespace Opensteer.McpConnectionPool

/-- A number that a field of an error holds. -/
inductive Number
  | whole (n : Int)
  | other
deriving DecidableEq

/-- What is read of an object that was thrown. `message` is that of an `Error`. -/
structure Failure where
  status : Option Number := none
  statusCode : Option Number := none
  httpStatus : Option Number := none
  message : Text := []
  transportFailure : Option Bool := none
  name : Option Text := none
  constructorName : Option Text := none

inductive Cause
  /-- No object, or null. -/
  | scalar
  | object (failure : Failure) (cause : Cause)
  /-- An object that is its own cause. -/
  | looped (failure : Failure)

/-- A character of the pattern, whose case is ignored. The long s is an s. -/
def isCharacter (character unit : UInt16) : Bool :=
  unit = character || unit + 0x20 = character || (character = 0x73 && unit = 0x17f)

/-- What comes after a word, which is spelled in lower case. -/
def afterWord : Text → Text → Option Text
  | [], text => some text
  | character :: word, unit :: text => if isCharacter character unit then afterWord word text else none
  | _ :: _, [] => none

def skipMark : Text → Text
  | unit :: text => if unit = 0x3a ∨ unit = 0x3d then text else unit :: text
  | [] => []

/-- The pattern, where the text begins with what it matches. -/
def statusHere (text : Text) : Option Int :=
  let word := (afterWord (units "http") text).or <|
    (afterWord (units "status") text).map fun rest => (afterWord (units " code") rest).getD rest
  word.bind fun rest =>
    let digits := ((skipMark (Text.trimStart rest)).dropWhile isWhiteSpace).take 3
    if digits.length = 3 && digits.all Decimal.isDigit then some (Decimal.value digits) else none

def statusIn (message : Text) : Option Int := message.tails.findSome? statusHere

def Failure.ownStatus (failure : Failure) : Option Number :=
  failure.status.or (failure.statusCode.or failure.httpStatus)

def mcpErrorStatus : Cause → Option Number
  | .scalar => none
  | .object failure cause =>
    failure.ownStatus.or ((mcpErrorStatus cause).or ((statusIn failure.message).map .whole))
  | .looped failure => failure.ownStatus.or ((statusIn failure.message).map .whole)

def deadStatuses : List Number := [.whole 400, .whole 401, .whole 404, .whole 408]

def Failure.isDead (failure : Failure) : Bool :=
  match failure.transportFailure with
  | some dead => dead
  | none => !(failure.name = some (units "McpError") || failure.constructorName = some (units "McpError"))

def isDeadMcpSessionFailure (cause : Cause) : Bool :=
  match mcpErrorStatus cause with
  | some status => status ∈ deadStatuses
  | none =>
    match cause with
    | .scalar => true
    | .object failure _ | .looped failure => failure.isDead

structure IdleConnection where
  connection : Nat
  idleSince : Int

inductive Phase
  /-- What stood idle too long is closed first. -/
  | expiring
  | connecting
  | uses (connection : Nat) (reused : Bool)
  /-- What was used is closed, and then a fresh one is used or the call is over. -/
  | closing (retries : Bool)
  | settled
deriving DecidableEq

structure Call (κ : Type) where
  key : κ
  phase : Phase
  overtaken : Bool := false

structure World (κ : Type) where
  idle : OrderedMap κ IdleConnection := .empty
  calls : List (Call κ) := []
  /-- The key each connection was opened for. -/
  opened : List κ := []
  /-- The connections whose `close` was called, in order. -/
  closed : List Nat := []
  quiet : Bool := false
  dead : List Nat := []

/-- What calls and promises do. `now` is what `Date.now()` gives. -/
inductive Action (κ : Type)
  | withConnection (key : κ) (now : Int)
  | connects (call : Nat)
  | connectFails (call : Nat)
  | fulfils (call : Nat) (now : Int)
  | rejects (call : Nat) (cause : Cause) (now : Int)
  /-- The `close` of a connection that a call waits for settles. -/
  | closeSettles (call : Nat)
  | close

variable {κ : Type} [DecidableEq κ]

namespace World

variable (w : World κ)

def setPhase (call : Nat) (c : Call κ) (phase : Phase) : World κ :=
  { w with calls := w.calls.set call { c with phase } }

/-- `#acquire`, of a call that begins. -/
def acquire (idleTtlMs : Int) (key : κ) (now : Int) : World κ :=
  let begun phase := { w with
    idle := w.idle.delete key
    calls := w.calls ++ [{ key, phase }]
    quiet := false }
  match w.idle.get key with
  | some entry =>
    if now - entry.idleSince < idleTtlMs then begun (.uses entry.connection true)
    else { begun .expiring with closed := w.closed ++ [entry.connection] }
  | none => begun .connecting

/-- `#release`, after which a call retries or is over. -/
def release (call : Nat) (c : Call κ) (connection : Nat) (drop retries : Bool) (now : Int) : World κ :=
  if drop || (w.idle.get c.key).isSome then
    { w.setPhase call c (.closing retries) with closed := w.closed ++ [connection] }
  else
    { w.setPhase call c (if retries then .connecting else .settled) with
      idle := w.idle.set c.key ⟨connection, now⟩ }

def close : World κ :=
  { w with
    idle := .empty
    calls := w.calls.map fun c => { c with overtaken := c.overtaken || c.phase ≠ .settled }
    closed := w.closed ++ w.idle.values.map (·.connection)
    quiet := true }

end World

def step (idleTtlMs : Int) (w : World κ) : Action κ → Option (World κ)
  | .withConnection key now => some (w.acquire idleTtlMs key now)
  | .connects call =>
    match w.calls[call]? with
    | some c =>
      if c.phase = .connecting then
        some { w.setPhase call c (.uses w.opened.length false) with opened := w.opened ++ [c.key] }
      else none
    | none => none
  | .connectFails call =>
    match w.calls[call]? with
    | some c => if c.phase = .connecting then some (w.setPhase call c .settled) else none
    | none => none
  | .fulfils call now =>
    match w.calls[call]? with
    | some c =>
      match c.phase with
      | .uses connection _ => some (w.release call c connection false false now)
      | _ => none
    | none => none
  | .rejects call cause now =>
    match w.calls[call]? with
    | some c =>
      match c.phase with
      | .uses connection reused =>
        let drop := isDeadMcpSessionFailure cause
        let retries := reused && mcpErrorStatus cause = some (.whole 404)
        let dead := if drop then w.dead ++ [connection] else w.dead
        some { w.release call c connection drop retries now with dead }
      | _ => none
    | none => none
  | .closeSettles call =>
    match w.calls[call]? with
    | some c =>
      match c.phase with
      | .expiring | .closing true => some (w.setPhase call c .connecting)
      | .closing false => some (w.setPhase call c .settled)
      | _ => none
    | none => none
  | .close => some w.close

def machine (idleTtlMs : Int) : Machine (World κ) (Action κ) where
  step := step idleTtlMs

/-- Nothing that is used across a `close` is left idle: it is dropped, or another is idle there. -/
def Spent (w : World κ) : Action κ → Prop
  | .fulfils call _ => ∀ c ∈ w.calls[call]?, c.overtaken → (w.idle.get c.key).isSome
  | .rejects call cause _ => ∀ c ∈ w.calls[call]?, c.overtaken →
      isDeadMcpSessionFailure cause ∨ (w.idle.get c.key).isSome
  | _ => True

instance (w : World κ) : (a : Action κ) → Decidable (Spent w a)
  | .fulfils call _ =>
    inferInstanceAs (Decidable (∀ c ∈ w.calls[call]?, c.overtaken → (w.idle.get c.key).isSome))
  | .rejects call cause _ =>
    inferInstanceAs (Decidable (∀ c ∈ w.calls[call]?, c.overtaken →
      isDeadMcpSessionFailure cause ∨ (w.idle.get c.key).isSome))
  | .withConnection _ _ | .connects _ | .connectFails _ | .closeSettles _ | .close => isTrue trivial

end Opensteer.McpConnectionPool
