import Opensteer.Realtime.Steps
import Mathlib.Algebra.Order.BigOperators.Group.List
import Mathlib.Algebra.Order.Group.Nat

/-!
# What a subscriber delivers

After any run of a subscriber the events handed to its sink ascend, and before
one of them all retained events between the subscriber's start and it have been
handed over; an open subscriber still has every event it was offered, and a
closed one was told to resync or closed by its owner or its sink
(`durable_order`). Progress is handed over after all it follows
(`live_after_durable`).
-/

namespace Opensteer.Realtime

variable {o : Options} {s : Subscriber} {log : List AgentEvent} {n : Nat} {as : List Action}

theorem side_initial (log : List AgentEvent) (n : Nat) : Side log (.initial n) where
  presync _ := ⟨rfl, rfl, by simp [Subscriber.initial]⟩
  syncing _ := by simp [Subscriber.initial]
  waiting := by simp [Subscriber.initial]
  held := by simp [Subscriber.initial]
  buffered := by simp [Subscriber.initial]
  fill := by simp [Subscriber.initial]
  unsent _ := rfl
  fromZero := by simp [Subscriber.initial]
  queued_le := Nat.le_refl n
  jobs := by simp [Subscriber.initial]

/-- Only a closed subscriber has kept every sequence. -/
theorem closed_of_kept (h : ∀ n, Kept s n) : s.state = .closed := by
  let sequences := s.pending.map (fun held => held.event.sequence) ++
    s.syncBuffer.map AgentEvent.sequence
  rcases h (sequences.sum + s.queuedThrough + 1) with hc | hq | ⟨held, hh, he⟩ | ⟨event, hb, he⟩
  · exact hc
  · omega
  · have hm : held.event.sequence ∈ sequences := by
      simp only [sequences, List.mem_append, List.mem_map]
      exact .inl ⟨held, hh, rfl⟩
    have := List.le_sum_of_mem hm
    omega
  · have hm : event.sequence ∈ sequences := by
      simp only [sequences, List.mem_append, List.mem_map]
      exact .inr ⟨event, hb, rfl⟩
    have := List.le_sum_of_mem hm
    omega

/-- A closed subscriber stays closed. -/
theorem Follows.stays_closed {F : Prop} {s' : Subscriber} (h : Follows o log F s s')
    (hc : s.state = .closed) : s'.state = .closed :=
  closed_of_kept fun n => h.keeps n (.inl hc)

/-- What holds after every run. -/
structure Delivered (o : Options) (log : List AgentEvent) (as : List Action) (s : Subscriber) :
    Prop where
  side : Side log s
  ok : (course o s).Ok AgentEvent.sequence LiveFrame.afterSequence log (isVisible o)
  kept : ∀ event, .offer event ∈ as → event ∈ log ∧ Kept s event.sequence
  failed : .fillRejects ∈ as → s.state = .closed
  closed : s.state = .closed → Resynced s ∨ (∃ a ∈ as, isFault a = true) ∨ Oversize o log

theorem delivered (hlog : Ascending AgentEvent.sequence log)
    (hmeets : (machine o).Meets (Legal log) (.initial n) as)
    (hrun : (machine o).run (.initial n) as = some s) : Delivered o log as s := by
  refine (machine o).run_induction (P := fun as s => Delivered o log as s) ?_
    (fun as s a t _ ih hlegal hs => ?_) hmeets hrun
  · exact ⟨side_initial log n, .initial n, by simp, by simp, by simp [Subscriber.initial]⟩
  · have hf := follows_step hlog ih.side hlegal hs
    refine ⟨hf.side, ih.ok.of_steps hlog hf.steps, fun event he => ?_, fun hr => ?_, fun hc => ?_⟩
    · rcases List.mem_append.mp he with he | he
      · exact ⟨(ih.kept event he).1, hf.keeps _ (ih.kept event he).2⟩
      · obtain rfl := List.mem_singleton.mp he
        cases hs
        exact ⟨hlegal, (Follows.offer (o := o) (F := True) hlog ih.side hlegal).2⟩
    · rcases List.mem_append.mp hr with hr | hr
      · exact hf.stays_closed (ih.failed hr)
      · obtain rfl := List.mem_singleton.mp hr
        simp only [machine, step] at hs
        split at hs <;> cases hs
        exact resync_closed s _
    · rcases hf.closes hc with hc | hc | hc | hc
      · rcases ih.closed hc with hr | ⟨b, hb, hfault⟩ | hsize
        · exact .inl (hr.mono hf.sent)
        · exact .inr (.inl ⟨b, List.mem_append_left _ hb, hfault⟩)
        · exact .inr (.inr hsize)
      · exact .inl hc
      · exact .inr (.inl ⟨a, List.mem_append_right _ (List.mem_singleton_self a), hc⟩)
      · exact .inr (.inr hc)

theorem handed_isPrefix (o : Options) (s : Subscriber) : handed s.sink <+: (course o s).items :=
  List.prefix_append _ _

/-- A subscriber that receives place events, after any run. The events handed to
its sink ascend, so none is sent twice; each is handed over after every retained
event between the subscriber's start and it; while the subscriber is open,
every event it was offered has been handed over, waits to be, or is held; and a
subscriber that is closed was told to resync, unless it was closed, a send
failed, or an event is as large as a message may be. A failed read closes it. -/
theorem durable_order (o : Options) (hplace : o.placeEvents = true)
    (hlog : Ascending AgentEvent.sequence log)
    (hmeets : (machine o).Meets (Legal log) (.initial n) as)
    (hrun : (machine o).run (.initial n) as = some s) :
    Ascending AgentEvent.sequence (CourseItem.events (handed s.sink)) ∧
    (∀ pre event post, CourseItem.events (handed s.sink) = pre ++ event :: post →
      ∀ r ∈ log, s.start < r.sequence → r.sequence < event.sequence → r ∈ pre) ∧
    (s.state ≠ .closed → ∀ event, .offer event ∈ as → s.start < event.sequence →
      event ∈ CourseItem.events (handed s.sink) ∨ event ∈ CourseItem.events (outgoing s) ∨
        event ∈ s.pending.map HeldEvent.event ∨ event ∈ s.syncBuffer) ∧
    (.fillRejects ∈ as → s.state = .closed) ∧
    (s.state = .closed → Resynced s ∨ (∃ a ∈ as, isFault a = true) ∨ Oversize o log) := by
  have h := delivered hlog hmeets hrun
  have hpre := handed_isPrefix o s
  refine ⟨h.ok.ascending hlog hpre, fun pre event post he r hr hs hlt =>
    h.ok.complete hlog hpre he hr (isVisible_of_placeEvents hplace r) hs hlt, fun hopen event he hs => ?_,
    h.failed, h.closed⟩
  obtain ⟨hmem, hkept⟩ := h.kept event he
  rcases hkept with hc | hq | ⟨held, hh, hseq⟩ | ⟨buffered, hb, hseq⟩
  · exact absurd hc hopen
  · have hexact := h.ok.exact (by simp [course, hopen])
    have hitem : event ∈ CourseItem.events (course o s).items := by
      rw [hexact]
      exact List.mem_filter.mpr ⟨mem_between.mpr ⟨hmem, hs, hq.trans h.side.queued_le⟩,
        isVisible_of_placeEvents hplace event⟩
    rw [course, CourseItem.events_append, List.mem_append] at hitem
    refine hitem.imp id fun hout => .inl ?_
    rw [CourseItem.mem_events] at hout ⊢
    exact (List.mem_filter.mp hout).1
  · have := hlog.eq_of_pos_eq (h.side.held held hh) hmem hseq
    exact .inr (.inr (.inl (this ▸ List.mem_map_of_mem hh)))
  · have := hlog.eq_of_pos_eq (h.side.buffered buffered hb) hmem hseq
    exact .inr (.inr (.inr (this ▸ hb)))

def exampleOptions : Options where
  placeEvents := true
  maxBufferedBytes := 100
  maxBufferedEvents := 100
  maxLiveBytes := 100
  maxWireBytes := 100
  maxReplayEvents := 100
  maxReplayBytes := 100
  eventBytes _ := 1
  liveFrameBytes _ := 1

def exampleRun : RunId := ⟨"run"⟩

def exampleEvent (sequence : Nat) : AgentEvent :=
  ⟨sequence, ⟨"workspace"⟩, ⟨"thread"⟩, some exampleRun, .assistantMessage⟩

/-- The third event is published while the subscriber synchronizes, and the second
after it has gone live. -/
theorem durable_order_run : ∃ s, (machine exampleOptions).run (.initial 1)
      [.membershipResolves true, .headResolves 1, .offer (exampleEvent 3),
        .viewerSnapshotResolves [], .offer (exampleEvent 2), .jobSendResolves, .jobFinishes,
        .jobStarts] = some s ∧
    Ascending AgentEvent.sequence (CourseItem.events (handed s.sink)) :=
  (machine _).exists_run (by decide) fun _ hs =>
    (durable_order exampleOptions rfl
      (by simp [Ascending, exampleEvent] : Ascending _ [exampleEvent 2, exampleEvent 3])
      (by decide) hs).1

/-- The defaults of `RealtimeHub`, and events of a million bytes. -/
def oversizeOptions : Options where
  placeEvents := true
  maxBufferedBytes := 8 * 1024 * 1024
  maxBufferedEvents := 5000
  maxLiveBytes := 4 * 1024 * 1024
  maxWireBytes := 960 * 1024
  maxReplayEvents := 5000
  maxReplayBytes := 8 * 1024 * 1024
  eventBytes _ := 1000000
  liveFrameBytes _ := 1

/-- An event that no message can hold fails the delivery: the subscriber is
closed, by no fault around it and with no resync. -/
theorem oversize_closes_unresynced : ¬ ∀ (o : Options) (log : List AgentEvent) (n : Nat)
    (as : List Action) (s : Subscriber), o.placeEvents = true → Ascending AgentEvent.sequence log →
      (machine o).Meets (Legal log) (.initial n) as → (machine o).run (.initial n) as = some s →
      s.state = .closed → Resynced s ∨ ∃ a ∈ as, isFault a = true := by
  intro h
  let as : List Action := [.membershipResolves true, .headResolves 1, .viewerSnapshotResolves [],
    .offer (exampleEvent 2), .jobSendResolves, .jobFinishes, .jobStarts]
  have hend : ((machine oversizeOptions).run (.initial 1) as).map (fun s => (s.state, s.sink)) =
      some (.closed, [.send (.synchronized 1), .close 1011]) := by decide
  obtain ⟨s, hs, hpair⟩ := Option.map_eq_some_iff.mp hend
  obtain ⟨hclosed, hsink⟩ := Prod.mk.inj hpair
  have hcause := h oversizeOptions [exampleEvent 2] 1 as s rfl (by simp [Ascending]) (by decide) hs
    hclosed
  simp [Resynced, hsink, as, isFault] at hcause

/-- Progress is handed over only after every durable event, of those the
subscriber is sent, that it follows. -/
theorem live_after_durable (hlog : Ascending AgentEvent.sequence log)
    (hmeets : (machine o).Meets (Legal log) (.initial n) as)
    (hrun : (machine o).run (.initial n) as = some s)
    {pre post : List (CourseItem AgentEvent LiveFrame)} {frame : LiveFrame}
    (he : handed s.sink = pre ++ CourseItem.note frame :: post) {r : AgentEvent} (hr : r ∈ log)
    (hv : isVisible o r = true) (hs : s.start < r.sequence)
    (hle : r.sequence ≤ frame.afterSequence) : r ∈ CourseItem.events pre :=
  CourseItem.mem_events.mpr
    ((delivered hlog hmeets hrun).ok.note_follows (handed_isPrefix o s) he hr hv hs hle)

end Opensteer.Realtime
