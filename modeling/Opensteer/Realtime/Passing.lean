import Opensteer.Realtime.Model
import Mathlib.Tactic.Simps.Basic

/-!
# What is passed to `#send`

A client without place events is given what `#send` lets through. A run of its
subscriber goes as the run of one that is sent all, by the same actions; what
that one hands its sink are the calls the first passes to `#send`, and where the
two differ is in what comes of these (`withheld`, `step_withheld`).
-/

namespace Opensteer.Realtime

variable {o : Options} {n : Nat} {t : Subscriber}

/-- The same client, if it took place events. -/
@[simps]
def Options.withPlaces (o : Options) : Options := { o with placeEvents := true }

/-- A call of the sink, by `#send` where it is a message. -/
def passCall (o : Options) (s : Subscriber) : SinkCall → Subscriber
  | .send message => send o s message
  | .close code => sinkClose s code

/-- The calls, one after another, from a subscriber at its cursor. -/
def passed (o : Options) (n : Nat) (calls : List SinkCall) : Subscriber :=
  calls.foldl (passCall o) (.initial n)

/-- The subscriber, if what it hands its sink had been passed to `#send`. -/
@[simps]
def withheld (o : Options) (n : Nat) (t : Subscriber) : Subscriber :=
  { t with
    visibleThrough := (passed o n t.sink).visibleThrough
    handedThrough := (passed o n t.sink).handedThrough
    sink := (passed o n t.sink).sink }

theorem passed_concat (o : Options) (n : Nat) (calls : List SinkCall) (call : SinkCall) :
    passed o n (calls ++ [call]) = passCall o (passed o n calls) call := by
  rw [passed, List.foldl_append]
  rfl

/-- `#send` reads and changes the sink and the two marks only. -/
theorem send_marks (o : Options) {s u : Subscriber} (hsink : s.sink = u.sink)
    (hvisible : s.visibleThrough = u.visibleThrough) (hhanded : s.handedThrough = u.handedThrough)
    (m : HostMessage) :
    send o s m = { s with
      sink := (send o u m).sink
      visibleThrough := (send o u m).visibleThrough
      handedThrough := (send o u m).handedThrough } := by
  unfold send
  split
  · simp [sinkSend, hsink, ← hvisible, ← hhanded]
  · cases m with
    | events events =>
      simp only [sendVisible]
      split
      · simp [hsink, ← hvisible, ← hhanded]
      · simp [sinkSend, hsink, ← hvisible, ← hhanded]
    | live frame afterSequence =>
      simp only [hvisible, hhanded]
      split
      · simp [sinkSend, hsink, ← hvisible, ← hhanded]
      · simp [sinkSend, hsink, ← hvisible, ← hhanded]
    | snapshot _ => simp [sinkSend, hsink, ← hvisible, ← hhanded]
    | synchronized _ => simp [sinkSend, hsink]
    | resyncRequired _ => simp [sinkSend, hsink, ← hvisible, ← hhanded]
    | queued _ => simp [sinkSend, hsink, ← hvisible, ← hhanded]

theorem send_withPlaces (o : Options) (t : Subscriber) (m : HostMessage) :
    send o.withPlaces t m = sinkSend t m := if_pos rfl

theorem send_withheld (o : Options) (n : Nat) (t : Subscriber) (m : HostMessage) :
    send o (withheld o n t) m = withheld o n (send o.withPlaces t m) := by
  rw [send_withPlaces, send_marks o (s := withheld o n t) (u := passed o n t.sink) rfl rfl rfl]
  simp only [withheld, sinkSend, passed_concat, passCall]

/-- What is no business of `#send`'s goes straight to the sink. -/
theorem passed_direct (o : Options) (n : Nat) (calls : List SinkCall) {m : HostMessage}
    (hm : (∃ reason, m = .resyncRequired reason) ∨ ∃ message, m = .queued message) :
    passed o n (calls ++ [SinkCall.send m]) = sinkSend (passed o n calls) m := by
  rw [passed_concat]
  rcases hm with ⟨reason, rfl⟩ | ⟨message, rfl⟩
  · simp only [passCall, send, ite_self]
  · simp only [passCall, send, ite_self]

/-- The client's subscriber, when `#send` is asked by nobody else. -/
theorem sinkSend_withheld (o : Options) (n : Nat) (t : Subscriber) {m : HostMessage}
    (hm : (∃ reason, m = .resyncRequired reason) ∨ ∃ message, m = .queued message) :
    sinkSend (withheld o n t) m = withheld o n (sinkSend t m) := by
  simp only [withheld, sinkSend, passed_direct o n t.sink hm]

theorem sinkClose_withheld (o : Options) (n : Nat) (t : Subscriber) (code : Nat) :
    sinkClose (withheld o n t) code = withheld o n (sinkClose t code) := by
  simp only [withheld, sinkClose, passed_concat, passCall]

/-! ## Closing -/

theorem resync_withheld (o : Options) (n : Nat) (t : Subscriber) (reason : ResyncReason) :
    resync (withheld o n t) reason = withheld o n (resync t reason) := by
  simp only [resync, withheld_state]
  split
  · rfl
  · exact sinkSend_withheld o n { t with state := .closed, gapTimer := false, resyncing := true }
      (.inl ⟨reason, rfl⟩)

theorem close_withheld (o : Options) (n : Nat) (t : Subscriber) :
    close (withheld o n t) = withheld o n (close t) := by
  simp only [close, withheld_state]
  split <;> rfl

theorem failDelivery_withheld (o : Options) (n : Nat) (t : Subscriber) :
    failDelivery (withheld o n t) = withheld o n (failDelivery t) := by
  simp only [failDelivery, withheld_state]
  split
  · rfl
  · rw [close_withheld, sinkClose_withheld]

/-! ## Holding and draining -/

theorem hold_withheld (o : Options) (n : Nat) (t : Subscriber) (event : AgentEvent) :
    hold o (withheld o n t) event =
      (withheld o n (hold o.withPlaces t event).1, (hold o.withPlaces t event).2) := by
  simp only [hold, withheld_pending, withheld_pendingBytes, withheld_state, Options.withPlaces_maxBufferedEvents,
    Options.withPlaces_maxBufferedBytes, Options.withPlaces_eventBytes]
  split
  · rfl
  · split
    · rw [resync_withheld]
    · rfl

theorem takeContiguousLoop_withheld (o : Options) (n fuel : Nat) (t : Subscriber)
    (batch : List AgentEvent) :
    takeContiguousLoop fuel (withheld o n t) batch =
      (withheld o n (takeContiguousLoop fuel t batch).1, (takeContiguousLoop fuel t batch).2) := by
  induction fuel generalizing t batch with
  | zero => rfl
  | succ fuel ih =>
    simp only [takeContiguousLoop, withheld_pending, withheld_queuedThrough]
    split
    · rfl
    · rename_i held hfind
      exact ih
        { t with
          pending := t.pending.filter fun h => h.event.sequence ≠ t.queuedThrough + 1
          pendingBytes := t.pendingBytes - held.bytes
          queuedThrough := t.queuedThrough + 1 }
        (batch ++ [held.event])

theorem takeContiguous_withheld (o : Options) (n : Nat) (t : Subscriber) :
    takeContiguous (withheld o n t) = (withheld o n (takeContiguous t).1, (takeContiguous t).2) :=
  takeContiguousLoop_withheld o n t.pending.length t []

theorem sendEvents_withheld (o : Options) (n : Nat) (t : Subscriber) (events : List AgentEvent) :
    sendEvents o (withheld o n t) events = withheld o n (sendEvents o.withPlaces t events) := by
  have htotal : totalBytes o.withPlaces events = totalBytes o events := rfl
  simp only [sendEvents, htotal, withheld_queuedEvents, withheld_queuedBytes,
    Options.withPlaces_maxBufferedEvents, Options.withPlaces_maxBufferedBytes]
  split
  · exact resync_withheld o n t _
  · rfl

theorem sendLive_withheld (o : Options) (n : Nat) (t : Subscriber) (frame : LiveFrame) (bytes : Nat)
    (replacement : Bool) : sendLive o (withheld o n t) frame bytes replacement =
      withheld o n (sendLive o.withPlaces t frame bytes replacement) := by
  simp only [sendLive, withheld_liveInFlightBytes, Options.withPlaces_maxLiveBytes]
  split <;> rfl

theorem offerLiveFrame_withheld (o : Options) (n : Nat) (t : Subscriber) (frame : LiveFrame)
    (replacement : Bool) : offerLiveFrame o (withheld o n t) frame replacement =
      withheld o n (offerLiveFrame o.withPlaces t frame replacement) := by
  simp only [offerLiveFrame, withheld_queuedThrough, withheld_pendingLiveBytes,
    Options.withPlaces_maxLiveBytes, Options.withPlaces_liveFrameBytes]
  split
  · exact sendLive_withheld o n { t with offeredLive := t.offeredLive ++ [frame] } frame _ _
  · split <;> rfl

theorem offerLiveFrames_withheld (o : Options) (n : Nat) (t : Subscriber) (frames : List LiveFrame) :
    frames.foldl (fun s frame => offerLiveFrame o s frame true) (withheld o n t) =
      withheld o n
        (frames.foldl (fun s frame => offerLiveFrame o.withPlaces s frame true) t) := by
  induction frames generalizing t with
  | nil => rfl
  | cons frame frames ih => rw [List.foldl_cons, offerLiveFrame_withheld, ih, List.foldl_cons]

theorem releaseOne_withheld (o : Options) (n : Nat) (t : Subscriber) (entry : HeldFrame) :
    releaseOne o (withheld o n t) entry = withheld o n (releaseOne o.withPlaces t entry) := by
  simp only [releaseOne, withheld_queuedThrough]
  split
  · exact sendLive_withheld o n t _ _ _
  · rfl

theorem releaseLive_withheld (o : Options) (n : Nat) (t : Subscriber) :
    releaseLive o (withheld o n t) = withheld o n (releaseLive o.withPlaces t) := by
  have hall : ∀ (entries : List HeldFrame) (u : Subscriber),
      entries.foldl (releaseOne o) (withheld o n u) =
        withheld o n (entries.foldl (releaseOne o.withPlaces) u) := by
    intro entries
    induction entries with
    | nil => exact fun _ => rfl
    | cons entry entries ih =>
      intro u
      rw [List.foldl_cons, releaseOne_withheld, ih, List.foldl_cons]
  exact hall t.pendingLive { t with pendingLive := [], pendingLiveBytes := 0 }

theorem scheduleGapFill_withheld (o : Options) (n : Nat) (t : Subscriber) :
    scheduleGapFill (withheld o n t) = withheld o n (scheduleGapFill t) := by
  simp only [scheduleGapFill, withheld_pending, withheld_filling]
  split
  · rfl
  · split <;> rfl

theorem drain_withheld (o : Options) (n : Nat) (t : Subscriber) :
    drain o (withheld o n t) = withheld o n (drain o.withPlaces t) := by
  simp only [drain, withheld_state, takeContiguous_withheld]
  split
  · rfl
  · split
    · rw [releaseLive_withheld, scheduleGapFill_withheld]
    · rw [sendEvents_withheld, releaseLive_withheld, scheduleGapFill_withheld]

/-! ## Offers -/

theorem offer_withheld (o : Options) (n : Nat) (t : Subscriber) (event : AgentEvent) :
    offer o (withheld o n t) event = withheld o n (offer o.withPlaces t event) := by
  simp only [offer, withheld_state, withheld_queuedThrough, withheld_syncBuffer,
    withheld_syncBufferedBytes, hold_withheld, Options.withPlaces_maxBufferedEvents,
    Options.withPlaces_maxBufferedBytes, Options.withPlaces_eventBytes]
  split
  · rfl
  · split
    · split
      · exact resync_withheld o n t _
      · rfl
    · cases hold o.withPlaces t event with
      | mk u kept =>
        cases kept with
        | true => exact drain_withheld o n u
        | false => rfl

theorem offerLive_withheld (o : Options) (n : Nat) (t : Subscriber) (frame : LiveFrame) :
    offerLive o (withheld o n t) frame = withheld o n (offerLive o.withPlaces t frame) := by
  simp only [offerLive, withheld_state]
  split
  · rfl
  · exact offerLiveFrame_withheld o n t frame _

theorem enqueueMessage_withheld (o : Options) (n : Nat) (t : Subscriber) (message : QueuedMessage) :
    enqueueMessage o (withheld o n t) message =
      withheld o n (enqueueMessage o.withPlaces t message) := by
  simp only [enqueueMessage, withheld_state]
  cases t.state with
  | synchronizing =>
    cases message with
    | notice notice => rfl
    | viewer type bytes =>
      simp only [withheld_viewerBufferedBytes, withheld_syncViewerMessages,
        Options.withPlaces_maxBufferedEvents, Options.withPlaces_maxBufferedBytes]
      split
      · exact resync_withheld o n t _
      · rfl
    | other type => rfl
  | live => rfl
  | closed => rfl

/-! ## Synchronizing -/

theorem goLive_withheld (o : Options) (n : Nat) (t : Subscriber) (liveFrames : List LiveFrame) :
    goLive o (withheld o n t) liveFrames = withheld o n (goLive o.withPlaces t liveFrames) := by
  simp only [goLive, withheld_queuedThrough, send_withheld]
  rw [← drain_withheld, ← offerLiveFrames_withheld]
  rfl

theorem holdBuffered_withheld (o : Options) (n : Nat) (t : Subscriber) (events : List AgentEvent) :
    holdBuffered o (withheld o n t) events =
      (withheld o n (holdBuffered o.withPlaces t events).1,
        (holdBuffered o.withPlaces t events).2) := by
  induction events generalizing t with
  | nil => rfl
  | cons event rest ih =>
    simp only [holdBuffered, withheld_queuedThrough, hold_withheld]
    split
    · cases hold o.withPlaces t event with
      | mk u kept =>
        cases kept with
        | true => exact ih u
        | false => rfl
    · exact ih t

theorem syncQuiet_withheld (o : Options) (n : Nat) (t : Subscriber) (liveFrames : List LiveFrame) :
    syncQuiet o (withheld o n t) liveFrames =
      withheld o n (syncQuiet o.withPlaces t liveFrames) := by
  simp only [syncQuiet, withheld_syncNotices, withheld_syncViewerMessages]
  split
  · rename_i notice rest hnotices
    cases wireNotices notice with
    | nil => rfl
    | cons first others =>
      exact send_withheld o n { t with syncNotices := rest, sync := .notices others } _
  · split
    · rename_i message rest hmessages
      exact send_withheld o n { t with
        syncViewerMessages := rest
        viewerBufferedBytes := t.viewerBufferedBytes - viewerBytes message
        sync := .viewerMessage } _
    · exact goLive_withheld o n t liveFrames

theorem boundedBatchesLoop_withPlaces (o : Options) (batches : List (List AgentEvent))
    (batch : List AgentEvent) (batchBytes : Nat) (events : List AgentEvent) :
    boundedBatchesLoop o.withPlaces batches batch batchBytes events =
      boundedBatchesLoop o batches batch batchBytes events := by
  induction events generalizing batches batch batchBytes with
  | nil => rfl
  | cons event events ih =>
    simp only [boundedBatchesLoop, ih, Options.withPlaces_eventBytes,
      Options.withPlaces_maxWireBytes]

theorem boundedEventBatches_withPlaces (o : Options) (events : List AgentEvent) :
    boundedEventBatches o.withPlaces events = boundedEventBatches o events :=
  boundedBatchesLoop_withPlaces o [] [] hostEventsEnvelopeBytes events

theorem syncLoop_withheld (o : Options) (n : Nat) (t : Subscriber) (liveFrames : List LiveFrame) :
    syncLoop o (withheld o n t) liveFrames = withheld o n (syncLoop o.withPlaces t liveFrames) := by
  have hclear : ({ withheld o n t with syncBuffer := [] } : Subscriber) =
      withheld o n { t with syncBuffer := [] } := rfl
  have hcount : ∀ u : Subscriber, ({ withheld o n u with syncBufferedBytes := 0 } : Subscriber) =
      withheld o n { u with syncBufferedBytes := 0 } := fun _ => rfl
  unfold syncLoop
  rw [hclear]
  simp only [withheld_state, withheld_syncBuffer, holdBuffered_withheld]
  split
  · rfl
  · cases holdBuffered o.withPlaces { t with syncBuffer := [] } t.syncBuffer with
    | mk u kept =>
      cases kept with
      | false => rfl
      | true =>
        simp only [hcount, takeContiguous_withheld, boundedEventBatches_withPlaces]
        cases takeContiguous { u with syncBufferedBytes := 0 } with
        | mk v batch =>
          dsimp only
          split
          · exact syncQuiet_withheld o n v liveFrames
          · cases boundedEventBatches o batch with
            | none => exact close_withheld o n { v with sync := .ended }
            | some batches =>
              cases batches with
              | nil => rfl
              | cons first rest => exact send_withheld o n { v with sync := .batches rest } _

theorem syncMessages_withheld (o : Options) (n : Nat) (t : Subscriber)
    (messages : List HostMessage) (cursor : Nat) :
    syncMessages o (withheld o n t) messages cursor =
      withheld o n (syncMessages o.withPlaces t messages cursor) := by
  cases messages with
  | nil => rfl
  | cons first rest => exact send_withheld o n { t with sync := .messages rest cursor } first

theorem replayLoop_withheld (o : Options) (n : Nat) (t : Subscriber)
    (cursor head replayBytes replayEvents : Nat) (messages : List HostMessage) :
    replayLoop o (withheld o n t) cursor head replayBytes replayEvents messages =
      withheld o n (replayLoop o.withPlaces t cursor head replayBytes replayEvents messages) := by
  unfold replayLoop
  split
  · rfl
  · exact syncMessages_withheld o n t messages cursor

theorem replayWindow_withheld (o : Options) (n : Nat) (t : Subscriber)
    (cursor head replayBytes replayEvents : Nat) (messages : List HostMessage) (window : Window) :
    replayWindow o (withheld o n t) cursor head replayBytes replayEvents messages window =
      withheld o n
        (replayWindow o.withPlaces t cursor head replayBytes replayEvents messages window) := by
  have hexpired : ({ resync (withheld o n t) .cursorExpired with sync := .ended } : Subscriber) =
      withheld o n { resync t .cursorExpired with sync := .ended } := by
    rw [resync_withheld]
    rfl
  simp only [replayWindow, hexpired, boundedEventBatches_withPlaces,
    Options.withPlaces_maxReplayEvents, Options.withPlaces_maxReplayBytes]
  split
  · rfl
  · split
    · rfl
    · cases boundedEventBatches o window.events with
      | none => exact close_withheld o n { t with sync := .ended }
      | some batches =>
        dsimp only
        split
        · rfl
        · exact replayLoop_withheld o n t _ _ _ _ _

/-! ## Filling gaps -/

theorem fillLoop_withheld (o : Options) (n : Nat) (t : Subscriber) (through : Nat) :
    fillLoop o (withheld o n t) through = withheld o n (fillLoop o.withPlaces t through) := by
  simp only [fillLoop, withheld_state, withheld_queuedThrough]
  split
  · rfl
  · exact drain_withheld o n { discardDelivered t with filling := none }

theorem fillGap_withheld (o : Options) (n : Nat) (t : Subscriber) :
    fillGap o (withheld o n t) = withheld o n (fillGap o.withPlaces t) := by
  simp only [fillGap, withheld_state, withheld_pending]
  split
  · rfl
  · cases (t.pending.map fun held => held.event.sequence).min? with
    | none => rfl
    | some lowest => exact fillLoop_withheld o n t _

theorem queueFresh_withheld (o : Options) (n : Nat) (t : Subscriber) (fill : Fill)
    (window : Window) :
    queueFresh o (withheld o n t) fill window =
      withheld o n (queueFresh o.withPlaces t fill window) := by
  simp only [queueFresh, withheld_queuedThrough, sendEvents_withheld]
  split <;> rfl

theorem fillWindow_withheld (o : Options) (n : Nat) (t : Subscriber) (fill : Fill)
    (window : Window) :
    fillWindow o (withheld o n t) fill window =
      withheld o n (fillWindow o.withPlaces t fill window) := by
  simp only [fillWindow, queueFresh_withheld, withheld_queuedThrough]
  generalize queueFresh o.withPlaces t fill window = u
  split
  · exact drain_withheld o n
      { discardDelivered { u with queuedThrough := max u.queuedThrough fill.through } with
        filling := none }
  · have hmove : ({ withheld o n u with
        queuedThrough := max u.queuedThrough window.scannedThrough } : Subscriber) =
      withheld o n { u with queuedThrough := max u.queuedThrough window.scannedThrough } := rfl
    simp only [hmove, resync_withheld]
    split
    · rfl
    · exact fillLoop_withheld o n _ _

/-! ## Jobs -/

theorem startJob_withheld (o : Options) (n : Nat) (t : Subscriber) (body : JobBody)
    (rest : List Job) :
    startJob o (withheld o n t) body rest = withheld o n (startJob o.withPlaces t body rest) := by
  cases body with
  | events events =>
    simp only [startJob, withheld_state, boundedEventBatches_withPlaces]
    split
    · rfl
    · cases boundedEventBatches o events with
      | none => exact failDelivery_withheld o n { t with sendTail := ⟨.events events, .settled⟩ :: rest }
      | some batches =>
        cases batches with
        | nil => rfl
        | cons first batches =>
          exact send_withheld o n { t with sendTail := ⟨.events events, .sending batches⟩ :: rest } _
  | synchronized => rfl
  | live frame bytes =>
    by_cases hlive : t.state = .live
    · simp only [startJob, jobSends, withheld_state, if_pos hlive]
      exact send_withheld o n { t with sendTail := ⟨.live frame bytes, .sending []⟩ :: rest } _
    · simp only [startJob, jobSends, withheld_state, if_neg hlive]
      rfl
  | message message =>
    by_cases hlive : t.state = .live
    · simp only [startJob, jobSends, withheld_state, if_pos hlive]
      exact send_withheld o n { t with sendTail := ⟨.message message, .sending []⟩ :: rest } _
    · simp only [startJob, jobSends, withheld_state, if_neg hlive]
      rfl

theorem finishJob_withheld (o : Options) (n : Nat) (t : Subscriber) (body : JobBody)
    (rest : List Job) :
    finishJob o (withheld o n t) body rest = withheld o n (finishJob o.withPlaces t body rest) := by
  cases body <;> rfl

theorem jobSendRejects_withheld (o : Options) (n : Nat) (t : Subscriber) (body : JobBody)
    (rest : List Job) :
    jobSendRejects (withheld o n t) body rest = withheld o n (jobSendRejects t body rest) := by
  simp only [jobSendRejects]
  split
  · exact close_withheld o n { t with sendTail := ⟨body, .settled⟩ :: rest }
  · exact failDelivery_withheld o n { t with sendTail := ⟨body, .settled⟩ :: rest }

/-! ## The machine -/

theorem syncSendResolves_withheld (o : Options) (n : Nat) (t : Subscriber)
    (liveFrames : List LiveFrame) :
    syncSendResolves o (withheld o n t) liveFrames =
      (syncSendResolves o.withPlaces t liveFrames).map (withheld o n) := by
  simp only [syncSendResolves, withheld_sync]
  split
  · rw [syncMessages_withheld]; rfl
  · rename_i next rest hsync
    exact congrArg some (send_withheld o n { t with sync := .batches rest } _)
  · rename_i next rest hsync
    exact congrArg some (send_withheld o n { t with sync := .notices rest } _)
  · rw [syncLoop_withheld]; rfl
  · rw [syncLoop_withheld]; rfl
  · rw [syncLoop_withheld]; rfl
  · rfl

theorem step_withheld (o : Options) (n : Nat) (t : Subscriber) (a : Action) :
    step o (withheld o n t) a = (step o.withPlaces t a).map (withheld o n) := by
  cases a with
  | membershipResolves isActive =>
    simp only [step, withheld_sync]
    split
    · cases isActive with
      | false => exact congrArg some (close_withheld o n { t with sync := .ended })
      | true => rfl
    · rfl
  | snapshotResolves sequence =>
    simp only [step, withheld_sync]
    split
    · exact congrArg some (syncMessages_withheld o n { t with start := sequence } _ _)
    · rfl
  | headResolves head =>
    simp only [step, withheld_sync, withheld_start, resync_withheld, replayLoop_withheld]
    split
    · split <;> rfl
    · rfl
  | replayResolves window =>
    simp only [step, withheld_sync]
    split
    · exact congrArg some (replayWindow_withheld o n t _ _ _ _ _ window)
    · rfl
  | subscribeRejects =>
    simp only [step, withheld_sync]
    split
    · exact congrArg some (close_withheld o n { t with sync := .ended })
    · rfl
  | syncSendResolves liveFrames => exact syncSendResolves_withheld o n t liveFrames
  | syncSendRejects =>
    simp only [step, withheld_sync]
    split
    · exact congrArg some (close_withheld o n { t with sync := .ended })
    · rfl
  | viewerSnapshotSends message =>
    simp only [step, withheld_sync]
    split
    · exact congrArg some (sinkSend_withheld o n t (.inr ⟨message, rfl⟩))
    · rfl
  | viewerSnapshotResolves liveFrames =>
    simp only [step, withheld_sync]
    split
    · exact congrArg some (syncLoop_withheld o n t liveFrames)
    · rfl
  | offer event => exact congrArg some (offer_withheld o n t event)
  | offerLive frame => exact congrArg some (offerLive_withheld o n t frame)
  | enqueueMessage message => exact congrArg some (enqueueMessage_withheld o n t message)
  | resync reason => exact congrArg some (resync_withheld o n t reason)
  | close => exact congrArg some (close_withheld o n t)
  | gapTimerFires =>
    simp only [step, withheld_gapTimer]
    split
    · exact congrArg some (fillGap_withheld o n { t with gapTimer := false })
    · rfl
  | fillResolves window =>
    simp only [step, withheld_filling]
    split
    · exact congrArg some (fillWindow_withheld o n t _ window)
    · rfl
  | fillRejects =>
    simp only [step, withheld_filling, resync_withheld]
    split <;> rfl
  | jobStarts =>
    simp only [step, withheld_sendTail]
    split
    · exact congrArg some (startJob_withheld o n t _ _)
    · rfl
  | jobSendResolves =>
    simp only [step, withheld_sendTail]
    split
    · rfl
    · rename_i body next batches rest htail
      exact congrArg some
        (send_withheld o n { t with sendTail := ⟨body, .sending batches⟩ :: rest } _)
    · rfl
  | jobSendRejects =>
    simp only [step, withheld_sendTail]
    split
    · exact congrArg some (jobSendRejects_withheld o n t _ _)
    · rfl
  | jobFinishes =>
    simp only [step, withheld_sendTail]
    split
    · exact congrArg some (finishJob_withheld o n t _ _)
    · rfl
  | resyncSettles =>
    simp only [step, withheld_resyncing]
    split
    · exact congrArg some (sinkClose_withheld o n { t with resyncing := false } 4009)
    · rfl

/-- A run of the client's subscriber is one of a subscriber that is sent all,
with what it hands over passed to `#send`. -/
theorem run_withheld (o : Options) (n : Nat) (as : List Action) :
    (machine o).run (.initial n) as =
      ((machine o.withPlaces).run (.initial n) as).map (withheld o n) :=
  calc (machine o).run (.initial n) as
    _ = (machine o).run (withheld o n (.initial n)) as := rfl
    _ = _ := Machine.run_map (step_withheld o n) (Subscriber.initial n) as

end Opensteer.Realtime
