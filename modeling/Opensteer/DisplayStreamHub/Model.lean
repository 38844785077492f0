import Mathlib.Algebra.Order.Ring.Int
import Mathlib.Data.Finset.Basic
import Opensteer.Core.Ids
import Opensteer.Framework.Machine
import Opensteer.Framework.OrderedMap

/-!
# The Host's display streams

`apps/host/src/computer-use/display-stream-hub.ts`: one stream of a display, from a phone
or of a Mac window, that the Host sends on to its viewers. The phone's media and its state
come over different sockets; a viewer is sent each frame as it comes, or a replay of what
is cached since the last key. One viewer at a time may hold something down on the display.

A step of `Stream.machine` is one of the handlers, from the arrival of a message to its
end. What the handler finds around it is in the action (`World`): which sources are still
live, what credit the clock and the link leave a viewer, whether its socket takes a frame.
-/

namespace Opensteer.DisplayStreamHub

def displayGopCacheBytes : Nat := 4 * 1024 * 1024
def displayGopCacheFrames : Nat := 600
def displayViewerCreditFrames : Nat := 4
def displayViewerWindowFrames : Nat := 60
def maxPending : Nat := 128
/-- `Number.MAX_SAFE_INTEGER`. -/
def maxSafeInteger : Nat := 2 ^ 53 - 1

/-! ## Sources -/

inductive DisplaySource
  | taskSession (sessionId : ComputerUseSessionId) (appKey : Option String)
  | ownerView (viewId : ComputerViewId) (generation : Nat)
deriving DecidableEq, Repr

inductive DisplaySourceKey
  | task (sessionId : ComputerUseSessionId) (app : String)
  | owner (viewId : ComputerViewId) (generation : Nat)
deriving DecidableEq, Repr

/-- `displaySourceKey`. -/
def DisplaySource.key : DisplaySource → DisplaySourceKey
  | .taskSession sessionId appKey => .task sessionId (appKey.getD "phone")
  | .ownerView viewId generation => .owner viewId generation

/-- `#sameSource`. -/
def sameSource : DisplaySource → DisplaySource → Bool
  | .taskSession sessionId _, .taskSession sessionId' _ => sessionId = sessionId'
  | .taskSession .., .ownerView .. => false
  | source, viewer => source.key = viewer.key

def DisplaySource.isOwnerView : DisplaySource → Bool
  | .ownerView .. => true
  | .taskSession .. => false

/-! ## Input -/

inductive Phase
  | down | move | up | cancel
deriving DecidableEq, Repr

inductive Button
  | none | left | middle | right
deriving DecidableEq, Repr

/-- A `DisplayInputEvent`, with what the hub reads of it. -/
inductive DisplayInputEvent
  | pointer (phase : Phase)
  | mouse (phase : Phase) (button : Button)
  | key (down : Bool) (code : String)
  | scroll | nav | text | command | edit | copy | cut
  | paste (items : Bool)
deriving DecidableEq, Repr

/-- What a viewer holds on a display. -/
inductive HeldItem
  | pointer
  | mouse (button : Button)
  | key (code : String)
deriving DecidableEq, Repr

def HeldItem.isMouse : HeldItem → Bool
  | .mouse _ => true
  | _ => false

/-- What `trackHeldDisplayInput` does with a touch or a button. -/
def trackPhase (held : Finset HeldItem) (item : HeldItem) (cancels : HeldItem → Bool) :
    Phase → Finset HeldItem
  | .down => insert item held
  | .up => held.erase item
  | .cancel => held.filter fun item => cancels item = false
  | .move => held

def trackHeldDisplayInput (held : Finset HeldItem) : DisplayInputEvent → Finset HeldItem
  | .pointer phase => trackPhase held .pointer (fun item => item = .pointer) phase
  | .mouse phase button => trackPhase held (.mouse button) HeldItem.isMouse phase
  | .key true code => insert (.key code) held
  | .key false code => held.erase (.key code)
  | _ => held

def releasesHeldInput : DisplayInputEvent → Bool
  | .pointer phase | .mouse phase _ => phase = .up || phase = .cancel
  | .key down _ => !down
  | _ => false

/-- Events of the kinds that need editing. -/
def DisplayInputEvent.isExtended : DisplayInputEvent → Bool
  | .pointer _ | .scroll | .nav | .text => false
  | _ => true

/-- A mouse, or files pasted, which a phone has no use for. -/
def DisplayInputEvent.isMacOnly : DisplayInputEvent → Bool
  | .mouse .. | .paste true => true
  | _ => false

/-- Who a viewer is, as long as it is there. -/
structure Sender where
  viewer : Nat
  source : DisplaySource
deriving DecidableEq, Repr

/-- How a message to the display says whose input it is about. -/
inductive SourceName
  | source (source : DisplaySource)
  | session (sessionId : ComputerUseSessionId)
  | nothing
deriving DecidableEq, Repr

/-- What the hub sends to the phone or the Mac. -/
inductive PhoneMessage
  | demand (sources : List DisplaySource)
  | input (sender : Sender) (names : SourceName) (geometry sequence : Nat) (events : List DisplayInputEvent)
  | inputReset (names : SourceName)
  | power (source : DisplaySource) (sequence : Nat) (lock : Bool)
  | stop
deriving DecidableEq

/-! ## Streams -/

/-- The `DisplayStreamState`s, and "unsupported". -/
inductive DisplayState
  | starting | warming | live | «protected» | screenOff | stopped | failed | unsupported
deriving DecidableEq, Repr

/-- The states that end a generation. -/
def DisplayState.withholds : DisplayState → Bool
  | .protected | .screenOff | .stopped | .failed => true
  | _ => false

def DisplayState.isSettled : DisplayState → Bool
  | .stopped | .failed | .unsupported => true
  | _ => false

structure DisplayViewerState where
  state : DisplayState
  generation : Nat
  width : Nat
  height : Nat
  reason : Option String
deriving DecidableEq, Repr

/-- A frame of the media, and how long it is in a viewer's envelope. -/
structure MediaFrame where
  sequence : Nat
  generation : Nat
  key : Bool
  width : Nat
  height : Nat
  bytes : Nat
deriving DecidableEq, Repr

structure Viewer where
  source : DisplaySource
  actor : UserId
  displayWindow : Bool
  /-- Its link is measured. -/
  link : Bool
  sharedInput : Bool
  phoneOwnerControl : Bool
  editing : Bool
  displayCut : Bool
  authorized : Bool
  inputSequence : Int
  /-- Its socket is open. -/
  isOpen : Bool
  /-- The bytes of each frame sent and not acknowledged. -/
  outstanding : OrderedMap Nat Nat
  discarded : List Nat
  bytes : Int
  waiting : Bool
  replayIndex : Option Nat
  replayThrough : Option Nat
deriving DecidableEq

structure PendingInput where
  viewer : Nat
  source : DisplaySource
  sequence : Nat
  geometry : Nat
  result : Bool
  copy : Bool
  cut : Bool
deriving DecidableEq, Repr

/-- What `demandKey` is made of. -/
structure DemandKey where
  sources : List DisplaySource
  warm : Option (List DisplaySource)
  inputSources : Option (List DisplaySource)
  maxBitrate : Option Nat
deriving DecidableEq, Repr

/-- A Mac window that is the display. -/
structure MacWindowTarget where
  editing : Bool
deriving DecidableEq, Repr

/-- What a stream is created with. -/
structure StreamOptions where
  target : Option MacWindowTarget
  sharedInput : Bool
  phoneOwnerControl : Bool
  editing : Bool
  displayCut : Bool
  displayProfile : Bool
deriving DecidableEq, Repr

structure Stream where
  options : StreamOptions
  viewers : OrderedMap Nat Viewer
  /-- How many viewers there were. -/
  admitted : Nat
  authorities : OrderedMap DisplaySourceKey (DisplaySource × UserId)
  state : DisplayViewerState
  sequence : Int
  generation : Nat
  mediaGeneration : Nat
  withheldThrough : Nat
  firstKey : Bool
  cache : List MediaFrame
  cacheBytes : Nat
  /-- `stopAt` is set. -/
  stopping : Bool
  demandKey : Option DemandKey
  holder : Option Sender
  holderSequence : Int
  held : Finset HeldItem
  inputSequence : Nat
  pending : OrderedMap Nat PendingInput
  pendingPower : OrderedMap Nat Sender
  /-- It is no stream of the hub any more. -/
  ended : Bool
  /-- Every frame of the phone. -/
  sent : List MediaFrame
  /-- Every frame handed to a viewer's socket. -/
  handed : List (Nat × MediaFrame)
  toPhone : List PhoneMessage
deriving DecidableEq

/-- What `#hasCredit` finds of the clock and the link. -/
structure Credit where
  withinAge : Bool
  bytes : Nat

/-- What a handler finds around it. -/
structure World where
  /-- `#sourceLive`. -/
  live : DisplaySource → UserId → Bool
  /-- Of a viewer and a frame's sequence, at each time a replay goes on. -/
  credit : Nat → Nat → Nat → Credit
  /-- A viewer's socket has room for a frame. -/
  roomy : Nat → Nat → Bool
  /-- The bytes that a replay to a viewer may take. -/
  replayBudget : Nat → Option Nat
  /-- The bitrate changes, and what it is. -/
  rebudgets : Bool
  maxBitrate : Option Nat
  /-- Other warm windows push this one out. -/
  evicts : Bool
  /-- The views of a stream that failed are closed. -/
  closesViews : Bool
  /-- It is too soon for another key frame. -/
  coalesces : Bool

namespace Viewer

def sender (v : Viewer) (id : Nat) : Sender := ⟨id, v.source⟩

/-- What `#clearCache` does to a viewer. -/
def dropReplay (v : Viewer) : Viewer :=
  if v.replayIndex = none then v else { v with replayIndex := none, replayThrough := none, waiting := true }

def wait (v : Viewer) : Viewer := { v with waiting := true }

/-- `#skip`. -/
def skip (v : Viewer) : Viewer := { v with replayIndex := none, replayThrough := none, waiting := true }

/-- `#hasCredit`. -/
def hasCredit (v : Viewer) (credit : Credit) (bytes : Nat) (replay key : Bool) : Bool :=
  (replay || (if v.displayWindow then v.outstanding.size < displayViewerWindowFrames && credit.withinAge
    else v.outstanding.size < displayViewerCreditFrames)) &&
  (v.outstanding.size = 0 || (key && v.link) || v.bytes + bytes ≤ credit.bytes)

/-- `#sendFrame`, and what of it the socket takes. -/
def sendFrame (v : Viewer) (roomy : Bool) (frame : MediaFrame) : Viewer × List MediaFrame :=
  let sent := { v with
    outstanding := v.outstanding.set frame.sequence frame.bytes, bytes := v.bytes + frame.bytes }
  if v.isOpen && roomy then (sent, [frame]) else ({ sent with isOpen := false }, [])

/-- The loop of `#drainCache`, over the frames from the viewer's index on. -/
def drain (w : World) (attempt id : Nat) : List MediaFrame → Viewer → Viewer × List MediaFrame
  | [], v =>
    if v.outstanding.size = 0 then ({ v with replayIndex := none, replayThrough := none }, []) else (v, [])
  | frame :: frames, v =>
    if v.hasCredit (w.credit attempt id frame.sequence) frame.bytes
        (v.replayThrough.any fun through => frame.sequence ≤ through) false then
      let sent := v.sendFrame (w.roomy id frame.sequence) frame
      let rest := drain w attempt id frames { sent.1 with replayIndex := sent.1.replayIndex.map (· + 1) }
      (rest.1, sent.2 ++ rest.2)
    else (v, [])

/-- What an acknowledgement gives back. -/
def acknowledge (v : Viewer) (sequence : Nat) : Viewer :=
  let acknowledged := v.outstanding.entries.filter fun e => e.1 ≤ sequence
  { v with
    outstanding := (acknowledged.map Prod.fst).foldl OrderedMap.delete v.outstanding
    bytes := v.bytes - (acknowledged.map fun e => (e.2 : Int)).sum }

end Viewer

namespace Stream

/-- The frames handed to a viewer. -/
def handedTo (s : Stream) (id : Nat) : List MediaFrame :=
  (s.handed.filter fun e => e.1 = id).map Prod.snd

def mapViewers (s : Stream) (f : Viewer → Viewer) : Stream := { s with viewers := s.viewers.mapValues f }

def setViewer (s : Stream) (id : Nat) (v : Viewer) : Stream := { s with viewers := s.viewers.set id v }

def send (s : Stream) (message : PhoneMessage) : Stream := { s with toPhone := s.toPhone ++ [message] }

/-- `#clearCache`. -/
def clearCache (s : Stream) : Stream := { s with cache := [], cacheBytes := 0 }.mapViewers Viewer.dropReplay

/-- `#inputAvailable`. -/
def inputAvailable (s : Stream) (v : Viewer) : Bool :=
  v.sharedInput && v.authorized &&
    match s.options.target with
    | some target => target.editing && v.source.isOwnerView
    | none => s.options.sharedInput &&
      (!v.source.isOwnerView || (s.options.phoneOwnerControl && v.phoneOwnerControl))

/-- `#powerAvailable`. -/
def powerAvailable (s : Stream) (v : Viewer) : Bool :=
  s.options.phoneOwnerControl && v.phoneOwnerControl && s.inputAvailable v &&
    !s.state.state.isSettled && s.state.reason ≠ some "paused"

/-- How the messages about a source's input name it. -/
def inputName (s : Stream) (source : DisplaySource) : SourceName :=
  if s.options.target.isSome && source.isOwnerView then .source source
  else if s.options.phoneOwnerControl then .source source
  else
    match source with
    | .taskSession sessionId _ => .session sessionId
    | .ownerView .. => .nothing

/-- `#resetInput`. -/
def resetInput (s : Stream) : Stream :=
  match s.holder with
  | none => s
  | some holder => { s with holder := none, held := ∅ }.send (.inputReset (s.inputName holder.source))

/-- `#publishState`. -/
def publishState (s : Stream) (next : DisplayViewerState) : Stream :=
  if s.state = next then s
  else
    let s := if s.state.generation ≠ next.generation ∨ next.state ≠ .live then
      { s.resetInput with pending := .empty } else s
    { s with state := next }

/-- A viewer goes: it is deleted, and then `#viewerRemoved`. -/
def removeViewer (s : Stream) (id : Nat) : Stream :=
  match s.viewers.get id with
  | none => s
  | some v =>
    let s := { s with viewers := s.viewers.delete id }
    let s := if s.holder = some (v.sender id) then s.resetInput else s
    { s with
      pendingPower := ((s.pendingPower.entries.filter fun e => e.2.viewer = id).map Prod.fst).foldl
        OrderedMap.delete s.pendingPower
      pending := ((s.pending.entries.filter fun e => e.2.viewer = id).map Prod.fst).foldl
        OrderedMap.delete s.pending }

/-- `#end`, which a viewer may be told for good. -/
def finish (s : Stream) (terminal : Bool) : Stream :=
  if s.ended then s
  else
    let s := if terminal && !s.state.state.isSettled then
      s.publishState { s.state with state := .stopped, generation := s.generation, reason := none } else s
    let s := { s with ended := true }.resetInput.send .stop
    s.viewers.keys.foldl removeViewer s

/-- The sources of the viewers, each once. -/
def sourcesOf (viewers : List Viewer) : List DisplaySource :=
  (viewers.foldl (fun m v => m.set v.source.key v.source) OrderedMap.empty).values

/-- `#demand`. -/
def demand (w : World) (s : Stream) : Stream :=
  let sources := sourcesOf s.viewers.values
  let warmSources := if s.options.target.isSome && sources.isEmpty then
    (s.authorities.values.filter fun e => w.live e.1 e.2).map Prod.fst else []
  let s := if sources.isEmpty then s
    else { s with
      stopping := false
      authorities := s.viewers.values.foldl (fun m v => m.set v.source.key (v.source, v.actor)) .empty }
  let warm := if warmSources.isEmpty then none else some warmSources
  let key : DemandKey := ⟨sources, warm,
    if s.options.phoneOwnerControl then some (sourcesOf (s.viewers.values.filter s.inputAvailable)) else none,
    if s.options.displayProfile then w.maxBitrate else none⟩
  if s.demandKey = some key then s
  else
    let s := { s with demandKey := some key }
    if !sources.isEmpty then s.send (.demand sources)
    else
      let s := s.clearCache
      if s.options.target.isSome then
        if warm = none then s.finish true
        else
          let s := { s with stopping := true }.publishState { s.state with state := .warming }
          let s := if w.evicts then s.finish true else s
          s.send (.demand sources)
      else
        let s := { s with withheldThrough := max s.withheldThrough s.generation }
        (s.publishState { s.state with state := .protected }).send (.demand sources)

/-- `#endSource`. -/
def endSource (w : World) (s : Stream) (source : DisplaySource) : Stream :=
  if s.ended then s
  else
    let gone := s.viewers.entries.filter fun e => e.2.source.key = source.key
    let removed := (s.authorities.get source.key).isSome || !gone.isEmpty
    let s := { s with authorities := s.authorities.delete source.key }
    let s := (gone.map Prod.fst).foldl removeViewer s
    if !removed then s
    else if s.viewers.entries.isEmpty && s.authorities.entries.isEmpty then s.finish true
    else s.demand w

/-- `#viewerLive`: a viewer whose source is not live any more goes. -/
def viewerLive (w : World) (s : Stream) (id : Nat) : Bool × Stream :=
  match s.viewers.get id with
  | none => (false, s)
  | some v => if w.live v.source v.actor then (true, s) else (false, s.endSource w v.source)

/-- `#drainCache`. -/
def drainCache (w : World) (attempt : Nat) (s : Stream) (id : Nat) : Stream :=
  match s.viewers.get id with
  | none => s
  | some v =>
    match v.replayIndex with
    | none => s
    | some index =>
      let checked := s.viewerLive w id
      if checked.1 then
        let drained := v.drain w attempt id (s.cache.drop index)
        { s.setViewer id drained.1 with handed := s.handed ++ drained.2.map fun frame => (id, frame) }
      else checked.2

/-- `#replay`, and whether it did. -/
def replay (w : World) (s : Stream) (id : Nat) : Stream :=
  let checked := s.viewerLive w id
  if !checked.1 then checked.2
  else
    match s.viewers.get id, s.cache.getLast? with
    | some v, some last =>
      if 1 < s.cache.length && (w.replayBudget id).any fun budget => budget < s.cacheBytes then s
      else drainCache w 0 (s.setViewer id { v with
        replayIndex := some 0, replayThrough := some last.sequence, waiting := false }) id
    | _, _ => s

/-! ## Media -/

def failOwnerSources (w : World) (s : Stream) : Stream :=
  if w.closesViews then
    (s.viewers.values.filter fun v => v.source.isOwnerView).foldl (fun s v => s.endSource w v.source) s
  else s

/-- `#failCapture`. -/
def failCapture (w : World) (s : Stream) (reason : String) : Stream :=
  if s.ended then s
  else
    let s := { s.clearCache with withheldThrough := maxSafeInteger }
    ((s.publishState ⟨.failed, s.generation, 0, 0, some reason⟩).failOwnerSources w).finish true

/-- A frame for one of the viewers, once it is cached. -/
def deliver (w : World) (frame : MediaFrame) (s : Stream) (id : Nat) : Stream :=
  let checked := s.viewerLive w id
  if !checked.1 then checked.2
  else
    match s.viewers.get id with
    | none => s
    | some v =>
      if v.replayIndex ≠ none then s.drainCache w 0 id
      else if v.waiting && !frame.key then s
      else if v.hasCredit (w.credit 0 id frame.sequence) frame.bytes false frame.key then
        let sent := { v with waiting := false }.sendFrame (w.roomy id frame.sequence) frame
        { s.setViewer id sent.1 with handed := s.handed ++ sent.2.map fun frame => (id, frame) }
      else
        -- A stalled window's bitrate may go down.
        let s := if v.displayWindow && w.rebudgets then s.demand w else s
        { s with viewers := s.viewers.modify id Viewer.skip }

/-- The frame in the cache, if it continues one. -/
def cacheFrame (s : Stream) (frame : MediaFrame) : Stream :=
  if frame.key || !s.cache.isEmpty then
    if displayGopCacheBytes < s.cacheBytes + frame.bytes || displayGopCacheFrames ≤ s.cache.length then
      let replaying := (s.viewers.entries.filter fun e => e.2.replayIndex ≠ none).map Prod.fst
      replaying.foldl (fun s id => { s with viewers := s.viewers.modify id Viewer.skip }) s.clearCache
    else { s with cache := s.cache ++ [frame], cacheBytes := s.cacheBytes + frame.bytes }
  else s

/-- A frame of the current generation that is not withheld. -/
def publish (w : World) (s : Stream) (frame : MediaFrame) : Stream :=
  let s := if frame.key then { s with firstKey := true } else s
  let s := if s.state.state ≠ .live ∨ s.state.generation ≠ frame.generation then
    s.publishState ⟨.live, frame.generation, frame.width, frame.height, none⟩ else s
  let s := if frame.key then s.clearCache else s
  let s := s.cacheFrame frame
  s.viewers.keys.foldl (deliver w frame) s

/-- A frame on the data socket. -/
def media (w : World) (s : Stream) (frame : MediaFrame) : Stream :=
  let s := { s with sent := s.sent ++ [frame] }
  if (frame.sequence : Int) ≤ s.sequence ∨ frame.generation < s.mediaGeneration then
    if s.options.target.isSome then s.failCapture w "capture-failed" else s.finish false
  else if s.options.target.isSome && s.viewers.entries.isEmpty then s
  else
    let s := { s with sequence := frame.sequence, mediaGeneration := frame.generation }
    if s.options.target.isSome && !s.firstKey && !frame.key then s
    else
      let s := if s.generation < frame.generation then
        { s.clearCache with generation := frame.generation }.mapViewers Viewer.wait else s
      if frame.generation = s.generation ∧ s.withheldThrough < frame.generation then s.publish w frame
      else if s.generation ≤ frame.generation then s.clearCache.mapViewers Viewer.wait
      else s

/-- A `runner.integrations.display.state`. -/
def phoneState (w : World) (s : Stream) (event : DisplayViewerState) : Stream :=
  if event.generation < s.generation then s
  else if event.state = .starting ∧ event.generation ≤ s.mediaGeneration then s
  else if s.options.target = none ∧ event.state = .failed ∧ event.reason = some "data-socket-failed" then
    s.finish false
  else
    let s := if event.generation ≠ s.generation ∨ event.state ≠ .live then
      s.clearCache.mapViewers Viewer.wait else s
    let s := if event.state.withholds then
      { s with withheldThrough := max s.withheldThrough event.generation } else s
    let s := { s with generation := event.generation }.publishState event
    if event.state = .failed ∨ event.state = .stopped then
      (if s.options.target.isSome then s.failOwnerSources w else s).finish true
    else s

/-! ## Viewers -/

/-- A viewer of a stream that there is. -/
def attaches (w : World) (s : Stream) (v : Viewer) : Stream :=
  let id := s.admitted
  let s := { s with
    stopping := false
    viewers := s.viewers.set id v
    admitted := s.admitted + 1
    authorities := s.authorities.set v.source.key (v.source, v.actor) }
  (s.demand w).replay w id

/-- The `close` of a viewer. -/
def leaves (w : World) (s : Stream) (id : Nat) : Stream :=
  if s.viewers.get id = none then s
  else
    let s := (s.removeViewer id).demand w
    if s.options.target = none ∧ s.viewers.entries.isEmpty then { s with stopping := true } else s

/-- A `runner.integrations.display.source-changed`. -/
def sourceChanged (w : World) (s : Stream) (source : DisplaySource) : Stream :=
  let gone := s.viewers.entries.filter fun e => e.2.source.key = source.key
  let s := { s with authorities := s.authorities.delete source.key }
  let s := ((gone.map Prod.fst).foldl removeViewer s).demand w
  if s.options.target = none ∧ s.viewers.entries.isEmpty then { s with stopping := true } else s

/-- `#inputAuthorization`. -/
def inputAuthorization (w : World) (s : Stream) (id : Nat) (authorized : Bool) : Stream :=
  match s.viewers.get id with
  | none => s
  | some v =>
    if v.authorized = authorized then s
    else
      let s := s.setViewer id { v with authorized }
      let s := if !authorized && s.holder = some (v.sender id) then s.resetInput else s
      s.demand w

/-- `withdrawOwnerInput`, of this stream. -/
def withdrawOwnerInput (w : World) (s : Stream) : Stream :=
  ((s.viewers.entries.filter fun e => e.2.source.isOwnerView).map Prod.fst).foldl
    (fun s id => s.inputAuthorization w id false) s

/-- A `DisplayViewerClientMessage` that the modelled state depends on. -/
inductive ClientMessage
  | keyframe
  | ack (sequence : Nat)
  | power (sequence : Nat) (lock : Bool)
  | inputReset
  | input (sequence geometry : Nat) (events : List DisplayInputEvent) (controlled : Bool)

/-- `display.keyframe`. -/
def keyframe (w : World) (s : Stream) (id : Nat) (v : Viewer) : Stream :=
  if w.coalesces then s
  else if displayGopCacheFrames + (if v.displayWindow then displayViewerWindowFrames
      else displayViewerCreditFrames) < v.discarded.length + v.outstanding.size then
    s.setViewer id { v with isOpen := false }
  else (s.setViewer id { v with
    discarded := v.discarded ++ v.outstanding.keys, outstanding := .empty, bytes := 0
    replayIndex := none, replayThrough := none, waiting := true }).replay w id

/-- `display.ack`. -/
def ack (w : World) (s : Stream) (id : Nat) (v : Viewer) (sequence : Nat) : Stream :=
  match v.discarded with
  | first :: discarded =>
    if first = sequence then (s.setViewer id { v with discarded }).drainCache w 0 id else s
  | [] =>
    if v.outstanding.get sequence = none then s
    else
      let s := if v.displayWindow && w.rebudgets then s.demand w else s
      let v := v.acknowledge sequence
      let s := s.setViewer id v
      let s := if v.waiting && v.outstanding.size = 0 then s.replay w id else s
      s.drainCache w 1 id

/-- `display.power`. -/
def power (s : Stream) (id : Nat) (v : Viewer) (sequence : Nat) (lock : Bool) : Stream :=
  if !v.phoneOwnerControl || (sequence : Int) ≤ v.inputSequence then s
  else
    let s := s.setViewer id { v with inputSequence := sequence }
    if !s.powerAvailable v || maxPending ≤ s.pendingPower.size then s
    else
      let s := if lock then s.resetInput else s
      { s with
        inputSequence := s.inputSequence + 1
        pendingPower := s.pendingPower.set s.inputSequence (v.sender id) }.send
          (.power v.source s.inputSequence lock)

/-- Why a batch is refused. -/
inductive Refusal
  | unavailable | stale | contended | unsupported | tooLarge
deriving DecidableEq, Repr

def refusal (s : Stream) (id : Nat) (v : Viewer) (geometry : Nat) (events : List DisplayInputEvent) :
    Option Refusal :=
  let editing := v.editing && (s.options.editing || s.options.target.any MacWindowTarget.editing)
  if !s.inputAvailable v || s.state.state ≠ .live then some .unavailable
  else if geometry ≠ s.generation then some .stale
  else if s.holder.any fun holder => holder ≠ v.sender id then some .contended
  else if (events.any DisplayInputEvent.isExtended && !editing) ||
      (s.options.target = none && events.any DisplayInputEvent.isMacOnly) ||
      (events.any (fun event => event = DisplayInputEvent.cut) && (!v.displayCut || !s.options.displayCut)) then
    some .unsupported
  else if maxPending ≤ s.pending.size && !events.any releasesHeldInput then some .tooLarge
  else none

/-- `display.input`. -/
def input (s : Stream) (id : Nat) (v : Viewer) (sequence geometry : Nat) (events : List DisplayInputEvent) :
    Stream :=
  if !v.sharedInput || (sequence : Int) ≤ v.inputSequence then s
  else
    let s := s.setViewer id { v with inputSequence := sequence }
    if s.refusal id v geometry events ≠ none then s
    else
      let editing := v.editing && (s.options.editing || s.options.target.any MacWindowTarget.editing)
      let copies := events.any fun event => event = DisplayInputEvent.copy || event = DisplayInputEvent.cut
      let held := events.foldl trackHeldDisplayInput s.held
      { s with
        inputSequence := s.inputSequence + 1
        pending := if editing then s.pending.set s.inputSequence
          ⟨id, v.source, sequence, geometry, true, copies, events.any fun event => event = DisplayInputEvent.cut⟩ else s.pending
        held
        holder := if held = ∅ then none else some (v.sender id)
        holderSequence := s.inputSequence }.send
          (.input (v.sender id) (s.inputName v.source) geometry s.inputSequence events)

/-- `#viewerMessage`. -/
def viewerMessage (w : World) (s : Stream) (id : Nat) (message : ClientMessage) : Stream :=
  match s.viewers.get id with
  | none => s
  | some v =>
    if !v.isOpen then s
    else
      let checked := s.viewerLive w id
      if !checked.1 then checked.2
      else
        match message with
        | .keyframe => s.keyframe w id v
        | .ack sequence => s.ack w id v sequence
        | .power sequence lock => s.power id v sequence lock
        | .inputReset => if s.holder = some (v.sender id) then s.resetInput else s
        | .input sequence geometry events controlled =>
          if controlled then s else s.input id v sequence geometry events

/-- A `display.input.result` or a `display.clipboard`, which `#inputEvent` handles. -/
inductive Receipt
  | result (dispatched : Bool)
  | clipboard (cut : Bool)
deriving DecidableEq, Repr

/-- `#inputEvent`. -/
def inputEvent (w : World) (s : Stream) (sequence : Nat) (receipt : Receipt) (geometry : Option Nat)
    (source : Option DisplaySource) : Stream :=
  if s.state.state ≠ .live ∨ geometry.any fun geometry => geometry ≠ s.generation then s
  else
    let isFrom : DisplaySource → Bool := fun viewer => source.all fun source => sameSource source viewer
    let s := if receipt = .result false ∧ s.holderSequence = sequence ∧
        s.holder.any (fun holder => isFrom holder.source) then s.resetInput else s
    match s.pending.get sequence with
    | none => s
    | some pending =>
      if pending.geometry ≠ s.generation || !isFrom pending.source then s
      else
        let spent : Stream → Stream := fun s => { s with pending := s.pending.delete sequence }
        match s.viewers.get pending.viewer with
        | none => spent s
        | some v =>
          let checked := s.viewerLive w pending.viewer
          if !s.inputAvailable v then spent s
          else if !checked.1 then spent checked.2
          else
            let answered : PendingInput → Stream := fun pending =>
              if !pending.result && !pending.copy then spent s
              else { s with pending := s.pending.set sequence pending }
            match receipt with
            | .result dispatched =>
              if !pending.result then s
              else answered { pending with result := false, copy := pending.copy && dispatched }
            | .clipboard cut =>
              if !pending.copy || (cut && !pending.cut) then s
              else answered { pending with copy := false }

/-- A `runner.integrations.display.power-result`. -/
def powerResult (s : Stream) (sequence : Nat) (source : DisplaySource) : Stream :=
  match s.pendingPower.get sequence with
  | none => s
  | some pending =>
    if sameSource source pending.source then { s with pendingPower := s.pendingPower.delete sequence } else s

/-! ## The machine -/

inductive Action
  | media (w : World) (frame : MediaFrame)
  | phoneState (w : World) (event : DisplayViewerState)
  | attaches (w : World) (source : DisplaySource) (actor : UserId)
      (displayWindow link sharedInput phoneOwnerControl editing displayCut authorized : Bool)
  | leaves (w : World) (id : Nat)
  /-- A viewer's socket is not open any more. -/
  | socketCloses (id : Nat)
  | viewerMessage (w : World) (id : Nat) (message : ClientMessage)
  | inputEvent (w : World) (sequence : Nat) (receipt : Receipt) (geometry : Option Nat)
      (source : Option DisplaySource)
  | powerResult (sequence : Nat) (source : DisplaySource)
  | sourceChanged (w : World) (source : DisplaySource)
  | endsSource (w : World) (source : DisplaySource)
  | authorizes (w : World) (id : Nat) (authorized : Bool)
  | withdrawsOwnerInput (w : World)
  /-- A sweep finds a viewer's source gone, or the bitrate or the picture's size to change. -/
  | rechecks (w : World) (id : Nat)
  | demands (w : World) (reset : Bool)
  | failsCapture (w : World) (reason : String)
  | ends (terminal : Bool)

/-- A viewer that has been sent nothing. -/
def newViewer (source : DisplaySource) (actor : UserId)
    (displayWindow link sharedInput phoneOwnerControl editing displayCut authorized : Bool) : Viewer where
  source := source
  actor := actor
  displayWindow := displayWindow
  link := link
  sharedInput := sharedInput
  phoneOwnerControl := phoneOwnerControl
  editing := editing
  displayCut := displayCut
  authorized := authorized
  inputSequence := -1
  isOpen := true
  outstanding := .empty
  discarded := []
  bytes := 0
  waiting := true
  replayIndex := none
  replayThrough := none

/-- A stream that is created for its first viewer. -/
def start (options : StreamOptions) (maxBitrate : Option Nat) (v : Viewer) : Stream :=
  let s : Stream := {
    options := options
    viewers := OrderedMap.empty.set 0 v
    admitted := 1
    authorities := OrderedMap.empty.set v.source.key (v.source, v.actor)
    state := ⟨.starting, 0, 0, 0, none⟩
    sequence := -1, generation := 0, mediaGeneration := 0, withheldThrough := 0, firstKey := false
    cache := [], cacheBytes := 0, stopping := false, demandKey := none
    holder := none, holderSequence := -1, held := ∅, inputSequence := 0
    pending := .empty, pendingPower := .empty, ended := false, sent := [], handed := [], toPhone := [] }
  { s with demandKey := some ⟨[v.source], none,
      if options.phoneOwnerControl then some (sourcesOf (s.viewers.values.filter s.inputAvailable)) else none,
      if options.displayProfile then maxBitrate else none⟩ }

/-- What a handler makes of a stream of the hub. -/
def act (s : Stream) : Action → Stream
  | .media w frame => s.media w frame
  | .phoneState w event => s.phoneState w event
  | .attaches w source actor displayWindow link sharedInput phoneOwnerControl editing displayCut authorized =>
    s.attaches w (newViewer source actor displayWindow link sharedInput phoneOwnerControl editing
      (editing && displayCut && s.options.target.isNone) authorized)
  | .leaves w id => s.leaves w id
  | .socketCloses id => { s with viewers := s.viewers.modify id fun v => { v with isOpen := false } }
  | .viewerMessage w id message => s.viewerMessage w id message
  | .inputEvent w sequence receipt geometry source => s.inputEvent w sequence receipt geometry source
  | .powerResult sequence source => s.powerResult sequence source
  | .sourceChanged w source => s.sourceChanged w source
  | .endsSource w source => s.endSource w source
  | .authorizes w id authorized => s.inputAuthorization w id authorized
  | .withdrawsOwnerInput w => s.withdrawOwnerInput w
  | .rechecks w id => (s.viewerLive w id).2
  | .demands w reset => (if reset then { s with demandKey := none } else s).demand w
  | .failsCapture w reason => s.failCapture w reason
  | .ends terminal => s.finish terminal

/-- A stream that has ended hears nothing more. -/
def step (s : Stream) (action : Action) : Option Stream := some (if s.ended then s else s.act action)

def machine : Machine Stream Action := ⟨step⟩

end Stream

end Opensteer.DisplayStreamHub
