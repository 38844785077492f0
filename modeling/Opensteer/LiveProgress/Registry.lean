import Opensteer.Framework.OrderedMap
import Opensteer.LiveProgress.Streams

/-!
# The Host's registry of live progress

`LiveRunRegistry` of `packages/orchestration/src/live-run-registry.ts`: the
streams of each Run the Host has learned from its durable events.

`LiveRunState.view` is what the registry keeps of a stream, and `applyItem`
reads an item into it as a reader of a feed does (`view_applyItem`), as long as
no stream is forgotten to make room.
-/

namespace Opensteer.LiveProgress

structure LiveStreamState where
  key : LiveStreamKey
  length : Nat
  tail : Text
deriving DecidableEq

structure LiveRunState where
  afterSequence : Nat
  runId : RunId
  streams : OrderedMap String LiveStreamState
  threadId : ThreadId
  touchedAt : Nat
  workspaceId : WorkspaceId
deriving DecidableEq

structure RegistryOptions where
  maxStreamsPerRun : Nat
  maxRuns : Nat
  /-- `JSON.stringify(item).length`. -/
  itemCharacters : LiveItem → Nat

structure LiveRunRegistry where
  runs : OrderedMap RunId LiveRunState
deriving DecidableEq

def LiveRunRegistry.empty : LiveRunRegistry := ⟨.empty⟩

/-! ## Durable events -/

/-- `terminalRunEventTypes`. -/
def isTerminal : EventData → Bool
  | .runCompleted | .runFailed | .runInterrupted => true
  | _ => false

/-- The stream an event completes. -/
def completedStreamKey : EventData → Option LiveStreamKey
  | .assistantMessage => some .assistant
  | .reasoningCompleted blockId => some (.reasoning blockId)
  | .toolCompleted callId => some (.tool callId)
  | _ => none

/-- The first of the Runs touched least recently. -/
def leastRecent : List LiveRunState → Option LiveRunState
  | [] => none
  | state :: states =>
    match leastRecent states with
    | some oldest => if oldest.touchedAt < state.touchedAt then some oldest else some state
    | none => some state

def evictLeastRecent (r : LiveRunRegistry) : LiveRunRegistry :=
  match leastRecent r.runs.values with
  | some oldest => ⟨r.runs.delete oldest.runId⟩
  | none => r

/-- `#ensureRun`, with the Run's state unless it is of another Thread. -/
def ensureRun (o : RegistryOptions) (now : Nat) (r : LiveRunRegistry) (runId : RunId)
    (threadId : ThreadId) (workspaceId : WorkspaceId) : LiveRunRegistry × Option LiveRunState :=
  match r.runs.get runId with
  | some existing =>
    let existing := { existing with touchedAt := now }
    (⟨r.runs.set runId existing⟩,
      if existing.threadId = threadId ∧ existing.workspaceId = workspaceId then some existing
      else none)
  | none =>
    let r := if o.maxRuns ≤ r.runs.size then evictLeastRecent r else r
    let state : LiveRunState := ⟨0, runId, .empty, threadId, now, workspaceId⟩
    (⟨r.runs.set runId state⟩, some state)

def completeStream (state : LiveRunState) (event : AgentEvent) : LiveRunState :=
  match completedStreamKey event.data with
  | some key => { state with streams := state.streams.delete (liveStreamKeyId key) }
  | none => state

/-- What `observeCommitted` does with one event of a transaction. -/
def observeEvent (o : RegistryOptions) (now transactionSequence : Nat) (r : LiveRunRegistry)
    (event : AgentEvent) : LiveRunRegistry :=
  match event.runId with
  | none => r
  | some runId =>
    if isTerminal event.data then ⟨r.runs.delete runId⟩
    else
      let r := if event.data = .runRestarted then ⟨r.runs.delete runId⟩ else r
      match ensureRun o now r runId event.threadId event.workspaceId with
      | (r, none) => r
      | (r, some state) =>
        ⟨r.runs.set runId (completeStream
          { state with afterSequence := max state.afterSequence transactionSequence } event)⟩

def observeCommitted (o : RegistryOptions) (now : Nat) (r : LiveRunRegistry)
    (events : List AgentEvent) : LiveRunRegistry :=
  events.foldl (observeEvent o now ((events.map AgentEvent.sequence).foldl max 0)) r

/-! ## Progress -/

/-- `#stream`: the stream, opened in the place of the oldest if there is no room. -/
def stream (o : RegistryOptions) (state : LiveRunState) (id : String) (key : LiveStreamKey) :
    LiveRunState × LiveStreamState :=
  match state.streams.get id with
  | some existing => (state, existing)
  | none =>
    let streams :=
      if o.maxStreamsPerRun ≤ state.streams.size then
        match state.streams.keys with
        | oldest :: _ => state.streams.delete oldest
        | [] => state.streams
      else state.streams
    ({ state with streams := streams.set id ⟨key, 0, []⟩ }, ⟨key, 0, []⟩)

/-- What `#applyItem` does with an append to a stream that is open. -/
def appendTo (state : LiveRunState) (id : String) (s : LiveStreamState) (key : LiveStreamKey)
    (at_ : Nat) (text : Text) : LiveRunState × Option LiveItem :=
  let end_ := at_ + text.length
  if end_ ≤ s.length then (state, none)
  else if s.length < at_ then (state, none)
  else
    let text := text.drop (s.length - at_)
    ({ state with
        streams := state.streams.set id
          { s with length := end_, tail := appendLiveStreamTail s.tail text } },
      some (.append key s.length text))

/-- `#applyItem`, and what to forward. -/
def applyItem (o : RegistryOptions) (state : LiveRunState) (item : LiveItem) :
    LiveRunState × Option LiveItem :=
  let id := liveStreamKeyId item.key
  match item with
  | .replace key length text =>
    let (state, s) := stream o state id key
    ({ state with streams := state.streams.set id { s with length, tail := text } }, some item)
  | .append key at_ text =>
    match state.streams.get id with
    | some s => appendTo state id s key at_ text
    | none =>
      if at_ = 0 then
        let (state, s) := stream o state id key
        appendTo state id s key at_ text
      else (state, none)

/-- The loop of `apply` over the items. -/
def applyItems (o : RegistryOptions) : LiveRunState → List LiveItem → LiveRunState × List LiveItem
  | state, [] => (state, [])
  | state, item :: items =>
    let (state, forwarded) := applyItem o state item
    let (state, accepted) := applyItems o state items
    (state, forwarded.toList ++ accepted)

def apply (o : RegistryOptions) (now : Nat) (r : LiveRunRegistry) (progress : LiveRunProgress) :
    LiveRunRegistry × Option LiveFrame :=
  match r.runs.get progress.runId with
  | none => (r, none)
  | some state =>
    if state.threadId ≠ progress.threadId ∨ state.workspaceId ≠ progress.workspaceId then (r, none)
    else
      let (state, accepted) := applyItems o { state with touchedAt := now } progress.items
      (⟨r.runs.set progress.runId state⟩,
        if accepted = [] then none
        else some ⟨state.afterSequence, { progress with items := accepted }⟩)

/-! ## Replacement frames -/

/-- Serialized characters one replacement frame may carry. -/
def replacementFrameMaxCharacters : Nat := 448 * 1024

def replacementItem (s : LiveStreamState) : LiveItem := .replace s.key s.length s.tail

def replacementFrame (state : LiveRunState) (items : List LiveItem) : LiveFrame :=
  ⟨state.afterSequence, state.runId, state.threadId, state.workspaceId, items⟩

/-- The loop of `replacementFrames` over the streams. -/
def replacementLoop (o : RegistryOptions) (state : LiveRunState) :
    List LiveItem → Nat → List LiveStreamState → List LiveFrame
  | items, _, [] => if items = [] then [] else [replacementFrame state items]
  | items, characters, s :: streams =>
    let item := replacementItem s
    if items ≠ [] ∧ (liveProgressMaxItems ≤ items.length ∨
        replacementFrameMaxCharacters < characters + o.itemCharacters item) then
      replacementFrame state items :: replacementLoop o state [item] (o.itemCharacters item) streams
    else replacementLoop o state (items ++ [item]) (characters + o.itemCharacters item) streams

def replacementFrames (o : RegistryOptions) (state : LiveRunState) : List LiveFrame :=
  replacementLoop o state [] 0 state.streams.values

/-- Every open stream of every active Run in the Workspace. -/
def workspaceFrames (o : RegistryOptions) (r : LiveRunRegistry) (workspaceId : WorkspaceId) :
    List LiveFrame :=
  (r.runs.values.filter fun state => state.workspaceId = workspaceId).flatMap (replacementFrames o)

/-! ## Streams as views of feeds -/

def LiveStreamState.view (s : LiveStreamState) : Feed.View Text := ⟨s.length, s.tail⟩

/-- What the registry keeps of a stream. -/
def LiveRunState.view (state : LiveRunState) (id : String) : Option (Feed.View Text) :=
  (state.streams.get id).map LiveStreamState.view

def toOp : LiveItem → Feed.Op UInt16 Text
  | .append _ at_ text => .append at_ text
  | .replace _ length text => .replace length text

/-- The operations on one stream, in order. -/
def opsOf (id : String) (items : List LiveItem) : List (Feed.Op UInt16 Text) :=
  (items.filter fun item => liveStreamKeyId item.key = id).map toOp

@[simp] theorem opsOf_nil (id : String) : opsOf id [] = [] := rfl

@[simp] theorem opsOf_append (id : String) (items items' : List LiveItem) :
    opsOf id (items ++ items') = opsOf id items ++ opsOf id items' := by
  simp [opsOf]

theorem opsOf_cons (id : String) (item : LiveItem) (items : List LiveItem) :
    opsOf id (item :: items) =
      if liveStreamKeyId item.key = id then toOp item :: opsOf id items else opsOf id items := by
  by_cases h : liveStreamKeyId item.key = id <;> simp [opsOf, h]

/-- A stream that the item opens has room. -/
def Fits (o : RegistryOptions) (state : LiveRunState) (item : LiveItem) : Prop :=
  state.view (liveStreamKeyId item.key) = none →
    Feed.read tails none (toOp item) ≠ none → state.streams.size < o.maxStreamsPerRun

instance (o : RegistryOptions) (state : LiveRunState) (item : LiveItem) :
    Decidable (Fits o state item) := by unfold Fits; infer_instance

theorem view_set (state : LiveRunState) (id id' : String) (s : LiveStreamState) :
    LiveRunState.view { state with streams := state.streams.set id s } id' =
      if id = id' then some s.view else state.view id' := by
  simp only [LiveRunState.view, OrderedMap.get_set]
  split <;> rfl

/-- With room, `#stream` opens the stream and no other changes. -/
theorem stream_eq (o : RegistryOptions) (state : LiveRunState) (id : String) (key : LiveStreamKey)
    (hfits : state.view id = none → state.streams.size < o.maxStreamsPerRun) :
    (∃ s, state.streams.get id = some s ∧ stream o state id key = (state, s)) ∨
    (state.streams.get id = none ∧ stream o state id key =
      ({ state with streams := state.streams.set id ⟨key, 0, []⟩ }, ⟨key, 0, []⟩)) := by
  unfold stream
  cases hs : state.streams.get id with
  | some s => exact .inl ⟨s, rfl, rfl⟩
  | none =>
    have hroom := hfits (by rw [LiveRunState.view, hs]; rfl)
    dsimp only
    rw [if_neg (by omega)]
    exact .inr ⟨rfl, rfl⟩

/-- An append to an open stream is read, and what it adds is forwarded. -/
theorem appendTo_spec (state : LiveRunState) (id : String) (s : LiveStreamState)
    (key : LiveStreamKey) (at_ : Nat) (text : Text) (hs : state.view id = some s.view) (id' : String) :
    (appendTo state id s key at_ text).1.view id' =
      if id = id' then some (s.view.append tails at_ text) else state.view id' := by
  unfold appendTo
  dsimp only
  have hsame : ∀ v : Feed.View Text, v = s.view →
      state.view id' = if id = id' then some v else state.view id' := by
    rintro v rfl
    split
    · rename_i h
      rw [← h, hs]
    · rfl
  split
  · rename_i h
    exact hsame _ (if_pos (.inl h))
  · split
    · rename_i h
      exact hsame _ (if_pos (.inr h))
    · rename_i h h'
      rw [view_set]
      have happend : s.view.append tails at_ text =
          ⟨at_ + text.length, appendLiveStreamTail s.tail (text.drop (s.length - at_))⟩ :=
        if_neg (by simp only [LiveStreamState.view]; omega)
      rw [happend]
      rfl

/-- An item is read into its stream's view, and no other view changes. -/
theorem view_applyItem (o : RegistryOptions) (state : LiveRunState) (item : LiveItem)
    (hfits : Fits o state item) (id : String) :
    (applyItem o state item).1.view id =
      if liveStreamKeyId item.key = id then Feed.read tails (state.view id) (toOp item)
      else state.view id := by
  cases item with
  | replace key length text =>
    change state.view (liveStreamKeyId key) = none →
      Feed.read tails none (.replace length text : Feed.Op UInt16 Text) ≠ none → _ at hfits
    change (applyItem o state (.replace key length text)).1.view id =
      if liveStreamKeyId key = id then some ⟨length, text⟩ else state.view id
    simp only [applyItem, LiveItem.key]
    rcases stream_eq o state (liveStreamKeyId key) key (fun h => hfits h (by simp [Feed.read])) with
      ⟨s, -, hs⟩ | ⟨-, hs⟩
    · rw [hs]
      exact view_set ..
    · rw [hs]
      simp only [LiveRunState.view, OrderedMap.get_set]
      by_cases h : liveStreamKeyId key = id
      · rw [if_pos h, if_pos h]; rfl
      · rw [if_neg h, if_neg h, if_neg h]
  | append key at_ text =>
    change state.view (liveStreamKeyId key) = none →
      Feed.read tails none (.append at_ text) ≠ none → _ at hfits
    change (applyItem o state (.append key at_ text)).1.view id =
      if liveStreamKeyId key = id then Feed.read tails (state.view id) (.append at_ text)
      else state.view id
    simp only [applyItem, LiveItem.key]
    cases hs : state.streams.get (liveStreamKeyId key) with
    | some s =>
      have hview : state.view (liveStreamKeyId key) = some s.view := by
        rw [LiveRunState.view, hs]; rfl
      dsimp only
      rw [appendTo_spec _ _ _ _ _ _ hview]
      by_cases h : liveStreamKeyId key = id
      · rw [if_pos h, if_pos h, ← h, hview]; rfl
      · rw [if_neg h, if_neg h]
    | none =>
      have hview : state.view (liveStreamKeyId key) = none := by rw [LiveRunState.view, hs]; rfl
      dsimp only
      split
      · rename_i hat
        subst hat
        have hopen : Feed.read tails none (.append 0 text : Feed.Op UInt16 Text) =
            some ((⟨0, []⟩ : Feed.View Text).append tails 0 text) := rfl
        rcases stream_eq o state (liveStreamKeyId key) key
          (fun h => hfits h (by rw [hopen]; simp)) with ⟨s, hsome, -⟩ | ⟨-, hstream⟩
        · rw [hs] at hsome
          cases hsome
        · rw [hstream]
          dsimp only
          rw [appendTo_spec _ _ _ _ _ _ (by rw [view_set, if_pos rfl]), view_set]
          by_cases h : liveStreamKeyId key = id
          · rw [if_pos h, if_pos h, ← h, hview]; rfl
          · rw [if_neg h, if_neg h, if_neg h]
      · rename_i hat
        split
        · rename_i h
          rw [← h, hview, Feed.read_stray (by omega)]
        · rfl

/-- What is forwarded of an append to an open stream. -/
theorem appendTo_forwards (state : LiveRunState) (id : String) (s : LiveStreamState)
    (key : LiveStreamKey) (at_ : Nat) (text : Text) :
    (appendTo state id s key at_ text).2 =
      if at_ + text.length ≤ s.length ∨ s.length < at_ then none
      else some (.append key s.length (text.drop (s.length - at_))) := by
  unfold appendTo
  dsimp only
  split
  · rename_i h
    rw [if_pos (.inl h)]
  · split
    · rename_i h
      rw [if_pos (.inr h)]
    · rename_i h h'
      rw [if_neg (by omega)]

/-- An item is forwarded as a relay of the stream's feed passes it on. -/
theorem applyItem_forwards (o : RegistryOptions) (state : LiveRunState) (item : LiveItem)
    (hfits : Fits o state item) :
    (applyItem o state item).2.map toOp =
      Feed.pass tails (state.view (liveStreamKeyId item.key)) (toOp item) ∧
    ∀ forwarded ∈ (applyItem o state item).2, forwarded.key = item.key := by
  cases item with
  | replace key length text =>
    simp only [applyItem]
    exact ⟨rfl, fun forwarded h => by rw [Option.mem_some_iff.mp h]⟩
  | append key at_ text =>
    have happend : ∀ (t : LiveRunState) (s : LiveStreamState),
        Feed.open_ tails (state.view (liveStreamKeyId key)) at_ = some s.view →
        (appendTo t (liveStreamKeyId key) s key at_ text).2.map toOp =
          Feed.pass tails (state.view (liveStreamKeyId key)) (.append at_ text) ∧
        ∀ forwarded ∈ (appendTo t (liveStreamKeyId key) s key at_ text).2, forwarded.key = key := by
      intro t s hs
      rw [appendTo_forwards, Feed.pass, hs, Option.bind_some]
      by_cases h : at_ + text.length ≤ s.length ∨ s.length < at_
      · rw [if_pos h]
        exact ⟨(if_pos h).symm, by simp⟩
      · rw [if_neg h]
        exact ⟨(if_neg h).symm, fun forwarded hf => by rw [← Option.mem_some_iff.mp hf]; rfl⟩
    change state.view (liveStreamKeyId key) = none →
      Feed.read tails none (.append at_ text) ≠ none → _ at hfits
    simp only [applyItem, LiveItem.key, toOp]
    cases hs : state.streams.get (liveStreamKeyId key) with
    | some s =>
      refine happend _ _ ?_
      rw [LiveRunState.view, hs]
      rfl
    | none =>
      have hview : state.view (liveStreamKeyId key) = none := by rw [LiveRunState.view, hs]; rfl
      dsimp only
      split
      · rename_i hat
        subst hat
        have hopen : Feed.read tails none (.append 0 text : Feed.Op UInt16 Text) =
            some ((⟨0, []⟩ : Feed.View Text).append tails 0 text) := rfl
        rcases stream_eq o state (liveStreamKeyId key) key
          (fun h => hfits h (by rw [hopen]; simp)) with ⟨s, hsome, -⟩ | ⟨-, hstream⟩
        · rw [hs] at hsome
          cases hsome
        · rw [hstream]
          exact happend _ _ (by rw [hview]; rfl)
      · rename_i hat
        rw [hview, Feed.pass, Feed.open_, if_neg hat]
        exact ⟨rfl, by simp⟩

/-- Items change nothing of a Run but its streams. -/
theorem applyItem_streams (o : RegistryOptions) (state : LiveRunState) (item : LiveItem) :
    ∃ streams, (applyItem o state item).1 = { state with streams } := by
  have hstream : ∀ id key, ∃ streams, (stream o state id key).1 = { state with streams } := by
    intro id key
    unfold stream
    split
    · exact ⟨_, rfl⟩
    · exact ⟨_, rfl⟩
  have happend : ∀ (t : LiveRunState) id s key at_ text, (∃ streams, t = { state with streams }) →
      ∃ streams, (appendTo t id s key at_ text).1 = { state with streams } := by
    rintro t id s key at_ text ⟨streams, rfl⟩
    unfold appendTo
    dsimp only
    split
    · exact ⟨_, rfl⟩
    · split
      · exact ⟨_, rfl⟩
      · exact ⟨_, rfl⟩
  cases item with
  | replace key length text =>
    obtain ⟨streams, hs⟩ := hstream (liveStreamKeyId key) key
    simp only [applyItem, LiveItem.key, hs]
    exact ⟨_, rfl⟩
  | append key at_ text =>
    simp only [applyItem, LiveItem.key]
    split
    · exact happend _ _ _ _ _ _ ⟨_, rfl⟩
    · split
      · exact happend _ _ _ _ _ _ (hstream _ _)
      · exact ⟨_, rfl⟩

theorem applyItems_streams (o : RegistryOptions) (state : LiveRunState) (items : List LiveItem) :
    ∃ streams, (applyItems o state items).1 = { state with streams } := by
  induction items generalizing state with
  | nil => exact ⟨state.streams, rfl⟩
  | cons item items ih =>
    obtain ⟨streams, hs⟩ := applyItem_streams o state item
    obtain ⟨streams', hs'⟩ := ih (applyItem o state item).1
    refine ⟨streams', ?_⟩
    change (applyItems o (applyItem o state item).1 items).1 = _
    rw [hs', hs]

/-- Each stream is under its key's id. -/
def Keyed (streams : OrderedMap String LiveStreamState) : Prop :=
  ∀ id s, streams.get id = some s → liveStreamKeyId s.key = id

theorem Keyed.set {streams : OrderedMap String LiveStreamState} (h : Keyed streams) {id : String}
    {s : LiveStreamState} (hkey : liveStreamKeyId s.key = id) : Keyed (streams.set id s) := by
  intro id s' hs
  rw [OrderedMap.get_set] at hs
  split at hs
  · rename_i hid
    rw [← Option.some.inj hs, ← hid]
    exact hkey
  · exact h id s' hs

theorem Keyed.delete {streams : OrderedMap String LiveStreamState} (h : Keyed streams)
    (id : String) : Keyed (streams.delete id) := by
  intro id' s hs
  rw [OrderedMap.get_delete] at hs
  split at hs
  · cases hs
  · exact h id' s hs

theorem stream_keyed (o : RegistryOptions) {state : LiveRunState} (h : Keyed state.streams)
    (key : LiveStreamKey) :
    Keyed (stream o state (liveStreamKeyId key) key).1.streams ∧
      liveStreamKeyId (stream o state (liveStreamKeyId key) key).2.key = liveStreamKeyId key := by
  unfold stream
  cases hs : state.streams.get (liveStreamKeyId key) with
  | some s => exact ⟨h, h _ s hs⟩
  | none =>
    dsimp only
    refine ⟨Keyed.set ?_ rfl, rfl⟩
    split
    · split
      · exact h.delete _
      · exact h
    · exact h

theorem appendTo_keyed {state : LiveRunState} {id : String} {s : LiveStreamState}
    (h : Keyed state.streams) (hs : liveStreamKeyId s.key = id) (key : LiveStreamKey) (at_ : Nat)
    (text : Text) : Keyed (appendTo state id s key at_ text).1.streams := by
  unfold appendTo
  dsimp only
  split
  · exact h
  · split
    · exact h
    · exact h.set hs

theorem applyItem_keyed (o : RegistryOptions) {state : LiveRunState} (h : Keyed state.streams)
    (item : LiveItem) : Keyed (applyItem o state item).1.streams := by
  cases item with
  | replace key length text =>
    obtain ⟨hkeyed, hkey⟩ := stream_keyed o h key
    simp only [applyItem, LiveItem.key]
    exact hkeyed.set hkey
  | append key at_ text =>
    simp only [applyItem, LiveItem.key]
    cases hs : state.streams.get (liveStreamKeyId key) with
    | some s => exact appendTo_keyed h (h _ s hs) key at_ text
    | none =>
      dsimp only
      split
      · obtain ⟨hkeyed, hkey⟩ := stream_keyed o h key
        exact appendTo_keyed hkeyed hkey key at_ text
      · exact h

theorem applyItems_keyed (o : RegistryOptions) {state : LiveRunState} (h : Keyed state.streams)
    (items : List LiveItem) : Keyed (applyItems o state items).1.streams := by
  induction items generalizing state with
  | nil => exact h
  | cons item items ih => exact ih (applyItem_keyed o h item)

/-- A replacement frame's items. -/
theorem replacementLoop_items (o : RegistryOptions) (state : LiveRunState) (items : List LiveItem)
    (characters : Nat) (streams : List LiveStreamState) :
    (replacementLoop o state items characters streams).flatMap (fun frame => frame.progress.items) =
      items ++ streams.map replacementItem ∧
    ∀ frame ∈ replacementLoop o state items characters streams,
      ∃ items', frame = replacementFrame state items' := by
  induction streams generalizing items characters with
  | nil =>
    by_cases h : items = []
    · simp [replacementLoop, h]
    · simp [replacementLoop, h, replacementFrame]
  | cons s streams ih =>
    rw [replacementLoop]
    split
    · obtain ⟨hitems, hframes⟩ := ih [replacementItem s] (o.itemCharacters (replacementItem s))
      rw [List.flatMap_cons, hitems]
      refine ⟨rfl, fun frame hf => ?_⟩
      rcases List.mem_cons.mp hf with rfl | hf
      · exact ⟨items, rfl⟩
      · exact hframes frame hf
    · obtain ⟨hitems, hframes⟩ :=
        ih (items ++ [replacementItem s]) (characters + o.itemCharacters (replacementItem s))
      rw [hitems, List.append_assoc]
      exact ⟨rfl, hframes⟩

/-- Progress of a known Run is applied to its state. -/
theorem apply_known (o : RegistryOptions) (now : Nat) {r : LiveRunRegistry} {state : LiveRunState}
    (progress : LiveRunProgress) (hs : r.runs.get progress.runId = some state)
    (hthread : state.threadId = progress.threadId)
    (hworkspace : state.workspaceId = progress.workspaceId) :
    (apply o now r progress).1.runs =
      r.runs.set progress.runId (applyItems o { state with touchedAt := now } progress.items).1 := by
  unfold apply
  rw [hs]
  dsimp only
  rw [if_neg (by simp [hthread, hworkspace])]

/-- An event of a known Run that completes a stream ends it, and no other. -/
theorem observe_completion (o : RegistryOptions) (now : Nat) {r : LiveRunRegistry}
    {state : LiveRunState} (event : AgentEvent) {runId : RunId} (key : LiveStreamKey)
    (hrun : event.runId = some runId) (hkey : completedStreamKey event.data = some key)
    (hs : r.runs.get runId = some state) (hthread : state.threadId = event.threadId)
    (hworkspace : state.workspaceId = event.workspaceId) :
    ∃ state', (observeCommitted o now r [event]).runs.get runId = some state' ∧
      state'.threadId = state.threadId ∧ state'.workspaceId = state.workspaceId ∧
      ∀ id, state'.view id = if liveStreamKeyId key = id then none else state.view id := by
  have hterminal : isTerminal event.data = false := by
    cases hd : event.data <;> simp [completedStreamKey, isTerminal, hd] at hkey ⊢
  have hrestart : event.data ≠ .runRestarted := by
    intro hd
    simp [completedStreamKey, hd] at hkey
  simp only [observeCommitted, List.foldl_cons, List.foldl_nil, observeEvent, hrun, hterminal,
    Bool.false_eq_true, if_false, hrestart, ensureRun, hs, hthread, hworkspace, and_self, if_true,
    OrderedMap.get_set, completeStream, hkey]
  refine ⟨_, rfl, rfl, rfl, fun id => ?_⟩
  simp only [LiveRunState.view, OrderedMap.get_delete]
  split <;> rfl

end Opensteer.LiveProgress
