import Opensteer.Core.Ids
import Mathlib.Data.List.Basic

/-!
# Live progress

The types of `packages/core/src/live.ts` and `packages/core/src/events.ts`, as
far as the modelled code reads them, and the functions both ends of the wire
keep a stream's tail with. A text is the list of its UTF-16 units.
-/

namespace Opensteer

abbrev Text := List UInt16

instance instLawfulBEqText : LawfulBEq Text := inferInstance

def liveStreamTextMaxLength : Nat := 120000
def liveAppendTextMaxLength : Nat := 64 * 1024
def liveProgressMaxItems : Nat := 256

inductive LiveStreamKey
  | assistant
  | reasoning (blockId : String)
  | tool (callId : String)
deriving DecidableEq, Repr

inductive LiveItem
  | append (key : LiveStreamKey) (at_ : Nat) (text : Text)
  | replace (key : LiveStreamKey) (length : Nat) (text : Text)
deriving DecidableEq, Repr

/-- `liveStreamKeyOf`. -/
def LiveItem.key : LiveItem → LiveStreamKey
  | .append key _ _ => key
  | .replace key _ _ => key

/-- `LiveItemSchema`: the bounds of each shape, and `replaceFitsLength`. -/
def LiveItem.Valid : LiveItem → Prop
  | .append _ _ text => 1 ≤ text.length ∧ text.length ≤ liveAppendTextMaxLength
  | .replace _ length text => text.length ≤ liveStreamTextMaxLength ∧ text.length ≤ length

instance : DecidablePred LiveItem.Valid := fun item => by
  cases item <;> unfold LiveItem.Valid <;> infer_instance

structure LiveRunProgress where
  runId : RunId
  threadId : ThreadId
  workspaceId : WorkspaceId
  items : List LiveItem
deriving DecidableEq, Repr

/-- A Run's progress as clients receive it: after every durable event it follows. -/
structure LiveFrame where
  afterSequence : Nat
  progress : LiveRunProgress
deriving DecidableEq, Repr

def liveStreamKeyId : LiveStreamKey → String
  | .assistant => "assistant"
  | .reasoning blockId => "reasoning:" ++ blockId
  | .tool callId => "tool:" ++ callId

def isLowSurrogate (unit : UInt16) : Bool := 0xdc00 ≤ unit && unit ≤ 0xdfff

/-- The newest `liveStreamTextMaxLength` units of a stream after an append. -/
def appendLiveStreamTail (tail text : Text) : Text :=
  let next := tail ++ text
  if next.length ≤ liveStreamTextMaxLength then next
  else
    let start := next.length - liveStreamTextMaxLength
    next.drop (if (next[start]?).any isLowSurrogate then start + 1 else start)

/-- Where to cut `text` near `index` without separating a surrogate pair. -/
def surrogateSafeCut (text : Text) (index : Nat) : Nat :=
  if 0 < index ∧ index < text.length ∧ (text[index]?).any isLowSurrogate then index - 1 else index

/-! ## Durable events -/

/-- The `type` of an event, with the `data` the modelled code reads. -/
inductive EventData
  | assistantMessage
  | reasoningCompleted (blockId : String)
  | toolCompleted (callId : String)
  | runCompleted | runFailed | runInterrupted | runRestarted
  | placeEntered
  | other (type : String)
deriving DecidableEq, Repr

structure AgentEvent where
  sequence : Nat
  workspaceId : WorkspaceId
  threadId : ThreadId
  runId : Option RunId
  data : EventData
deriving DecidableEq, Repr

end Opensteer
