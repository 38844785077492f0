import Opensteer.Framework.Course
import Opensteer.Realtime.Model

/-!
# What the subscriber's steps change

For each function of the subscriber, the fields it may change and how: what a
send adds to what the sink has been handed, what a closed subscriber keeps,
which events `#takeContiguous` takes.
-/

namespace Opensteer.Realtime

variable {o : Options} {s : Subscriber} {log : List AgentEvent}

/-- The events and the progress of a message. -/
def messageItems : HostMessage → List (CourseItem AgentEvent LiveFrame)
  | .events events => events.map .event
  | .live frame _ => [.note frame]
  | _ => []

def callItems : SinkCall → List (CourseItem AgentEvent LiveFrame)
  | .send message => messageItems message
  | .close _ => []

/-- The events and the progress handed to the sink, in order. -/
def handed (sink : List SinkCall) : List (CourseItem AgentEvent LiveFrame) := sink.flatMap callItems

/-- Whether the subscriber is sent the item. -/
def isShown (o : Options) : CourseItem AgentEvent LiveFrame → Bool
  | .event event => isVisible o event
  | .note _ => true

@[simp] theorem handed_append (k k' : List SinkCall) : handed (k ++ k') = handed k ++ handed k' :=
  List.flatMap_append

@[simp] theorem handed_send (m : HostMessage) : handed [.send m] = messageItems m := by
  simp [handed, callItems]

@[simp] theorem handed_close (code : Nat) : handed [.close code] = [] := by
  simp [handed, callItems]

theorem filter_isShown (o : Options) (events : List AgentEvent) :
    (events.map CourseItem.event).filter (isShown o) = (events.filter (isVisible o)).map .event := by
  rw [List.filter_map]
  rfl

theorem isVisible_of_placeEvents (h : o.placeEvents = true) (event : AgentEvent) :
    isVisible o event = true := by
  simp [isVisible, h]

/-- `#send` hands the sink what the subscriber is sent of the message. -/
theorem send_shape (o : Options) (s : Subscriber) (m : HostMessage) :
    ∃ sink visibleThrough handedThrough,
      send o s m = { s with sink, visibleThrough, handedThrough } ∧ s.sink <+: sink ∧
      handed sink = handed s.sink ++ (messageItems m).filter (isShown o) := by
  have hsink : ∀ m' : HostMessage, messageItems m' = (messageItems m).filter (isShown o) →
      handed (s.sink ++ [SinkCall.send m']) = handed s.sink ++ (messageItems m).filter (isShown o) := by
    intro m' hm
    rw [handed_append, handed_send, hm]
  have hpre : ∀ c, s.sink <+: s.sink ++ [c] := fun c => List.prefix_append _ _
  unfold send
  split
  · rename_i hplace
    refine ⟨_, _, _, rfl, hpre _, hsink m (List.filter_eq_self.mpr fun i _ => ?_).symm⟩
    cases i with
    | event e => exact isVisible_of_placeEvents hplace e
    | note f => rfl
  · cases m with
    | events events =>
      simp only [sendVisible]
      split
      · rename_i hnil
        exact ⟨_, _, _, rfl, List.prefix_rfl, by simp [messageItems, filter_isShown, hnil]⟩
      · exact ⟨_, _, _, rfl, hpre _, hsink (.events _) (filter_isShown o events).symm⟩
    | live frame afterSequence =>
      dsimp only
      split
      · exact ⟨_, _, _, rfl, hpre _, hsink (.live frame _) rfl⟩
      · exact ⟨_, _, _, rfl, hpre _, hsink (.live frame _) rfl⟩
    | snapshot sequence => exact ⟨_, _, _, rfl, hpre _, hsink (.snapshot _) rfl⟩
    | synchronized sequence => exact ⟨_, _, _, rfl, hpre _, hsink (.synchronized _) rfl⟩
    | resyncRequired reason => exact ⟨_, _, _, rfl, hpre _, hsink (.resyncRequired _) rfl⟩
    | queued message => exact ⟨_, _, _, rfl, hpre _, hsink (.queued _) rfl⟩

/-! ## Closing -/

/-- The subscriber was told to resync. -/
def Resynced (s : Subscriber) : Prop := ∃ reason, .send (.resyncRequired reason) ∈ s.sink

/-- `s'` is `s` closed, with nothing more handed over. -/
def Closing (s s' : Subscriber) : Prop :=
  ∃ gapTimer resyncing sink, s' = { s with state := .closed, gapTimer, resyncing, sink } ∧
    s.sink <+: sink ∧ handed sink = handed s.sink

theorem closing_self (h : s.state = .closed) : Closing s s :=
  ⟨s.gapTimer, s.resyncing, s.sink, by cases s; simp_all, List.prefix_rfl, rfl⟩

theorem close_closing (s : Subscriber) : Closing s (close s) := by
  unfold close
  split
  · exact closing_self ‹_›
  · exact ⟨_, _, _, rfl, List.prefix_rfl, rfl⟩

theorem resync_closing (s : Subscriber) (reason : ResyncReason) : Closing s (resync s reason) := by
  unfold resync
  split
  · exact closing_self ‹_›
  · exact ⟨_, _, _, rfl, List.prefix_append _ _, by simp [messageItems]⟩

theorem failDelivery_closing (s : Subscriber) : Closing s (failDelivery s) := by
  unfold failDelivery
  split
  · exact closing_self ‹_›
  · rename_i h
    refine ⟨false, s.resyncing, s.sink ++ [SinkCall.close 1011], ?_, List.prefix_append _ _, by simp⟩
    rw [close, if_neg h]
    rfl

/-- An open subscriber that resyncs has told its client so. -/
theorem resync_resynced (s : Subscriber) (reason : ResyncReason) :
    s.state = .closed ∨ Resynced (resync s reason) := by
  by_cases h : s.state = .closed
  · exact .inl h
  · refine .inr ⟨reason, ?_⟩
    rw [resync, if_neg h]
    exact List.mem_append_right _ (List.mem_singleton_self _)

/-! ## Holding and taking events -/

/-- `#hold` leaves the subscriber as it is, holds the event, or resyncs. -/
theorem hold_shape (o : Options) (s : Subscriber) (event : AgentEvent) :
    (hold o s event = (s, true) ∧ ∃ held ∈ s.pending, held.event.sequence = event.sequence) ∨
    (∃ bytes pendingBytes, hold o s event =
      ({ s with pending := s.pending ++ [⟨bytes, event⟩], pendingBytes }, true)) ∨
    ∃ reason, hold o s event = (resync s reason, false) := by
  unfold hold
  split
  · rename_i h
    exact .inl ⟨rfl, by simpa using h⟩
  · split
    · exact .inr (.inr ⟨_, rfl⟩)
    · exact .inr (.inl ⟨_, _, rfl⟩)

/-- `r` is `s` moved to a later sequence, and `batch` with what the log has
between. -/
def TakesTo (log : List AgentEvent) (s : Subscriber) (batch : List AgentEvent)
    (r : Subscriber × List AgentEvent) : Prop :=
  ∃ pending pendingBytes queuedThrough,
    r = ({ s with pending, pendingBytes, queuedThrough },
      batch ++ between AgentEvent.sequence log s.queuedThrough queuedThrough) ∧
    s.queuedThrough ≤ queuedThrough ∧ (∀ held ∈ pending, held ∈ s.pending) ∧
    ∀ held ∈ s.pending, held ∈ pending ∨ held.event.sequence ≤ queuedThrough

theorem takesTo_self (log : List AgentEvent) (s : Subscriber) (batch : List AgentEvent) :
    TakesTo log s batch (s, batch) :=
  ⟨s.pending, s.pendingBytes, s.queuedThrough, by simp [between_eq_nil (Nat.le_refl _)],
    Nat.le_refl _, fun _ h => h, fun _ h => .inl h⟩

theorem takeContiguousLoop_takesTo (hlog : Ascending AgentEvent.sequence log) (fuel : Nat)
    (s : Subscriber) (batch : List AgentEvent) (hheld : ∀ held ∈ s.pending, held.event ∈ log) :
    TakesTo log s batch (takeContiguousLoop fuel s batch) := by
  induction fuel generalizing s batch with
  | zero => exact takesTo_self log s batch
  | succ fuel ih =>
    unfold takeContiguousLoop
    split
    · exact takesTo_self log s batch
    · rename_i held hfind
      have hnext : held.event.sequence = s.queuedThrough + 1 := by
        simpa using List.find?_some hfind
      have hmem : held.event ∈ log := hheld held (List.mem_of_find?_eq_some hfind)
      obtain ⟨pending, pendingBytes, q, he, hq, hsub, hrest⟩ := ih
        { s with
          pending := s.pending.filter fun h => h.event.sequence ≠ s.queuedThrough + 1
          pendingBytes := s.pendingBytes - held.bytes
          queuedThrough := s.queuedThrough + 1 }
        (batch ++ [held.event]) (fun h hh => hheld h (List.mem_filter.mp hh).1)
      refine ⟨pending, pendingBytes, q, ?_, Nat.le_of_succ_le hq,
        fun h hh => (List.mem_filter.mp (hsub h hh)).1, fun h hh => ?_⟩
      · rw [he, List.append_assoc, ← between_succ hlog hmem hnext,
          between_append hlog (Nat.le_succ _) hq]
      · by_cases hs : h.event.sequence = s.queuedThrough + 1
        · exact .inr (hs ▸ hq)
        · exact hrest h (List.mem_filter.mpr ⟨hh, by simpa using hs⟩)

/-- `#takeContiguous` moves to a later sequence, and takes what the log has between. -/
theorem takeContiguous_takesTo (hlog : Ascending AgentEvent.sequence log) (s : Subscriber)
    (hheld : ∀ held ∈ s.pending, held.event ∈ log) : TakesTo log s [] (takeContiguous s) :=
  takeContiguousLoop_takesTo hlog s.pending.length s [] hheld

/-! ## Batches -/

theorem boundedBatchesLoop_flatten {batches : List (List AgentEvent)} {batch : List AgentEvent}
    {batchBytes : Nat} {events : List AgentEvent} {out : List (List AgentEvent)}
    (h : boundedBatchesLoop o batches batch batchBytes events = some out) :
    out.flatten = batches.flatten ++ batch ++ events := by
  induction events generalizing batches batch batchBytes with
  | nil =>
    simp only [boundedBatchesLoop, Option.some.injEq] at h
    subst h
    split <;> simp [*]
  | cons event events ih =>
    dsimp only [boundedBatchesLoop] at h
    generalize o.eventBytes event + (if batch = [] then 0 else 1) = bytes at h
    split at h
    · cases h
    · split at h
      · simpa using ih h
      · simpa using ih h

/-- The batches hold the events, in order. -/
theorem boundedEventBatches_flatten {events : List AgentEvent} {out : List (List AgentEvent)}
    (h : boundedEventBatches o events = some out) : out.flatten = events := by
  simpa using boundedBatchesLoop_flatten h

theorem boundedBatchesLoop_none {batches : List (List AgentEvent)} {batch : List AgentEvent}
    {batchBytes : Nat} {events : List AgentEvent}
    (h : boundedBatchesLoop o batches batch batchBytes events = none) :
    ∃ event ∈ events, o.maxWireBytes ≤ hostEventsEnvelopeBytes + o.eventBytes event := by
  induction events generalizing batches batch batchBytes with
  | nil => simp [boundedBatchesLoop] at h
  | cons event events ih =>
    dsimp only [boundedBatchesLoop] at h
    generalize hbytes : o.eventBytes event + (if batch = [] then 0 else 1) = bytes at h
    split at h
    · refine ⟨event, List.mem_cons_self .., ?_⟩
      split at hbytes <;> omega
    · split at h
      all_goals
        obtain ⟨e, he, hsize⟩ := ih h
        exact ⟨e, List.mem_cons_of_mem _ he, hsize⟩

/-- No batches are made only where an event is as large as a message may be. -/
theorem boundedEventBatches_none {events : List AgentEvent}
    (h : boundedEventBatches o events = none) :
    ∃ event ∈ events, o.maxWireBytes ≤ hostEventsEnvelopeBytes + o.eventBytes event :=
  boundedBatchesLoop_none h

/-! ## Jobs -/

theorem sendLive_shape (o : Options) (s : Subscriber) (frame : LiveFrame) (bytes : Nat)
    (replacement : Bool) :
    sendLive o s frame bytes replacement = s ∨
    ∃ liveInFlightBytes, sendLive o s frame bytes replacement =
      { s with liveInFlightBytes, sendTail := s.sendTail ++ [⟨.live frame bytes, .waiting⟩] } := by
  unfold sendLive
  split
  · exact .inl rfl
  · exact .inr ⟨_, rfl⟩

theorem sendEvents_shape (o : Options) (s : Subscriber) (events : List AgentEvent) :
    sendEvents o s events = resync s .slowConsumer ∨
    ∃ queuedEvents queuedBytes, sendEvents o s events =
      { s with queuedEvents, queuedBytes, sendTail := s.sendTail ++ [⟨.events events, .waiting⟩] } := by
  unfold sendEvents
  split
  · exact .inl rfl
  · exact .inr ⟨_, _, rfl⟩

/-- `#sendEvents` goes by other fields than those `#takeContiguous` moves. -/
theorem sendEvents_update (o : Options) (s : Subscriber) (events : List AgentEvent)
    (pending : List HeldEvent) (pendingBytes : Int) (queuedThrough : Nat) :
    sendEvents o { s with pending, pendingBytes, queuedThrough } events =
      { sendEvents o s events with pending, pendingBytes, queuedThrough } := by
  unfold sendEvents resync
  split
  · dsimp only
    split <;> rfl
  · rfl

end Opensteer.Realtime
