import Opensteer.Realtime.Order

/-!
# Every step of a subscriber

What the surroundings promise (`Legal`): published events are those of the log,
and a read returns what the log has after the asked cursor. Under it every
action takes steps of the subscriber's course (`follows_step`), so after any run
the events handed over ascend, none is missing before another, and progress
comes after all it follows (`durable_order`, `live_after_durable`).
-/

namespace Opensteer.Realtime

variable {o : Options} {s : Subscriber} {log : List AgentEvent} {F : Prop}

/-! ## Held events and gaps -/

/-- A window holds what the log has after the cursor, up to where it scanned. -/
def WindowOk (log : List AgentEvent) (cursor through : Nat) (window : Window) : Prop :=
  window.events = between AgentEvent.sequence log cursor window.scannedThrough ∧
  window.scannedThrough ≤ through ∧ (window.hasMore = false → window.scannedThrough = through)

instance (cursor through : Nat) (window : Window) :
    Decidable (WindowOk log cursor through window) := by
  unfold WindowOk; infer_instance

/-- `#hold` keeps the event, unless the subscriber closes. -/
theorem follows_hold (h : Side log s) {event : AgentEvent} (he : event ∈ log) :
    Follows o log F s (hold o s event).1 ∧ Kept (hold o s event).1 event.sequence ∧
      (hold o s event).1.sync = s.sync ∧ (hold o s event).1.queuedThrough = s.queuedThrough ∧
      (hold o s event).1.syncBuffer = s.syncBuffer ∧
      ((hold o s event).2 = true → (hold o s event).1.state = s.state) ∧
      ((hold o s event).2 = false → (hold o s event).1.state = .closed) := by
  rcases hold_shape o s event with ⟨hs, hheld⟩ | ⟨bytes, pendingBytes, hs⟩ | ⟨reason, hs⟩
  · rw [hs]
    exact ⟨.refl h, .inr (.inr (.inl hheld)), rfl, rfl, rfl, fun _ => rfl, by simp⟩
  · rw [hs]
    refine ⟨.of_course ⟨h.presync, h.syncing, h.waiting, ?_, h.buffered, h.fill, h.unsent,
      h.fromZero, h.queued_le, h.jobs⟩ rfl (fun n hn => ?_) id List.prefix_rfl rfl, ?_, rfl, rfl,
      rfl, fun _ => rfl, by simp⟩
    · refine List.forall_mem_append.mpr ⟨h.held, fun held hh => ?_⟩
      rw [List.mem_singleton.mp hh]
      exact he
    · rcases hn with hc | hq | ⟨held, hh, hn⟩ | hb
      · exact .inl hc
      · exact .inr (.inl hq)
      · exact .inr (.inr (.inl ⟨held, List.mem_append_left _ hh, hn⟩))
      · exact .inr (.inr (.inr hb))
    · exact .inr (.inr (.inl ⟨_, List.mem_append_right _ (List.mem_singleton_self _), rfl⟩))
  · rw [hs]
    have hclosed := resync_closed s reason
    refine ⟨.resync h reason, .inl hclosed, ?_, ?_, ?_, by simp, fun _ => hclosed⟩ <;>
      · obtain ⟨_, _, _, hr, -⟩ := resync_closing s reason
        rw [hr]

theorem Follows.offer (hlog : Ascending AgentEvent.sequence log) (h : Side log s)
    {event : AgentEvent} (he : event ∈ log) :
    Follows o log F s (offer o s event) ∧ Kept (offer o s event) event.sequence := by
  unfold Realtime.offer
  split
  · rename_i hold
    exact ⟨.refl h, hold.imp id .inl⟩
  · rename_i hopen
    push Not at hopen
    split
    · rename_i hsync
      split
      · exact ⟨.resync h _, .inl (resync_closed s _)⟩
      · refine ⟨.of_course ⟨h.presync, h.syncing, h.waiting, h.held, ?_, h.fill, h.unsent,
          h.fromZero, h.queued_le, h.jobs⟩ rfl (fun n hn => ?_) id List.prefix_rfl rfl, ?_⟩
        · refine List.forall_mem_append.mpr ⟨h.buffered, fun e hb => ?_⟩
          rw [List.mem_singleton.mp hb]
          exact he
        · rcases hn with hc | hq | hh | ⟨e, hb, hn⟩
          · exact .inl hc
          · exact .inr (.inl hq)
          · exact .inr (.inr (.inl hh))
          · exact .inr (.inr (.inr ⟨e, List.mem_append_left _ hb, hn⟩))
        · exact .inr (.inr (.inr ⟨event, List.mem_append_right _ (List.mem_singleton_self _), rfl⟩))
    · obtain ⟨hf, hkept, -⟩ := follows_hold (o := o) (F := F) h he
      split
      · rename_i t hs
        rw [hs] at hf hkept
        have hd := hf.trans (.drain hlog hf.side)
        exact ⟨hd, (Follows.drain (o := o) (F := F) hlog hf.side).keeps _ hkept⟩
      · rename_i t hs
        rw [hs] at hf hkept
        exact ⟨hf, hkept⟩

/-- A read of `#fillGap` is over. -/
theorem Follows.endFill (h : Side log s) : Follows o log F s { s with filling := none } :=
  .of_course ⟨fun hs => ⟨(h.presync hs).1, rfl, (h.presync hs).2.2⟩, h.syncing, h.waiting, h.held,
    h.buffered, by simp, h.unsent, h.fromZero, h.queued_le, h.jobs⟩ rfl (fun _ hn => hn) id
    List.prefix_rfl rfl

/-- Where a gap has been read, what was held of it has been sent. -/
theorem Follows.discardDelivered (h : Side log s) :
    Follows o log F s { discardDelivered s with filling := none } := by
  refine .of_course ⟨fun hs => ⟨(h.presync hs).1, rfl, (h.presync hs).2.2⟩, h.syncing, h.waiting,
    fun held hh => h.held held (List.mem_filter.mp hh).1, h.buffered, by simp, h.unsent, h.fromZero,
    h.queued_le, h.jobs⟩ rfl (fun n hn => ?_) id List.prefix_rfl rfl
  rcases hn with hc | hq | ⟨held, hh, rfl⟩ | hb
  · exact .inl hc
  · exact .inr (.inl hq)
  · by_cases hq : held.event.sequence ≤ s.queuedThrough
    · exact .inr (.inl hq)
    · exact .inr (.inr (.inl ⟨held, List.mem_filter.mpr ⟨hh, by simpa using hq⟩, rfl⟩))
  · exact .inr (.inr (.inr hb))

theorem Follows.fillLoop (hlog : Ascending AgentEvent.sequence log) (h : Side log s)
    (through : Nat) : Follows o log F s (fillLoop o s through) := by
  unfold Realtime.fillLoop
  split
  · rename_i hlive
    have hended : s.sync = .ended := by
      by_contra hs
      exact (h.presync hs).2.2 hlive.1
    refine .of_course ⟨fun hs => absurd hended hs, h.syncing, h.waiting, h.held, h.buffered, ?_,
      h.unsent, h.fromZero, h.queued_le, h.jobs⟩ rfl (fun n hn => hn) id List.prefix_rfl rfl
    rintro fill ⟨rfl⟩
    exact Nat.le_refl _
  · have hd := Follows.discardDelivered (o := o) (F := F) h
    exact hd.trans (.drain hlog hd.side)

theorem Follows.fillGap (hlog : Ascending AgentEvent.sequence log) (h : Side log s) :
    Follows o log F s (fillGap o s) := by
  unfold Realtime.fillGap
  split
  · exact .refl h
  · split
    · exact .refl h
    · exact .fillLoop hlog h _

/-- The new events of a window are what the log has from where the subscriber is. -/
theorem fresh_eq {cursor through q : Nat} {window : Window}
    (hw : WindowOk log cursor through window) (hcursor : cursor ≤ q) :
    (window.events.filter fun event => q < event.sequence ∧ event.sequence ≤ through) =
      between AgentEvent.sequence log q (max q window.scannedThrough) := by
  rw [hw.1, between, between, List.filter_filter]
  refine List.filter_congr fun event _ => ?_
  have := hw.2.1
  rw [← Bool.decide_and, decide_eq_decide]
  omega

theorem sendEvents_pending (o : Options) (s : Subscriber) (events : List AgentEvent) :
    (sendEvents o s events).pending = s.pending ∧
      (sendEvents o s events).pendingBytes = s.pendingBytes := by
  rcases sendEvents_shape o s events with hs | ⟨_, _, hs⟩
  · obtain ⟨_, _, _, hr, -⟩ := resync_closing s .slowConsumer
    rw [hs, hr]
    exact ⟨rfl, rfl⟩
  · rw [hs]
    exact ⟨rfl, rfl⟩

/-- A window's new events are queued, and the subscriber moves to where it scanned. -/
theorem Follows.queueFresh (h : Side log s) (hended : s.sync = .ended) {fill : Fill} {window : Window}
    (hcursor : fill.cursor ≤ s.queuedThrough) (hw : WindowOk log fill.cursor fill.through window) :
    Follows o log F s { queueFresh o s fill window with
      queuedThrough := max (queueFresh o s fill window).queuedThrough window.scannedThrough } := by
  have hn : s.queuedThrough ≤ max s.queuedThrough window.scannedThrough := Nat.le_max_left _ _
  have hrest : ∀ held ∈ s.pending, held ∈ s.pending ∨
      held.event.sequence ≤ max s.queuedThrough window.scannedThrough := fun _ hh => .inl hh
  have hfresh := fresh_eq hw hcursor
  simp only [Realtime.queueFresh, hfresh]
  cases hlast : (between AgentEvent.sequence log s.queuedThrough
      (max s.queuedThrough window.scannedThrough)).getLast? with
  | none =>
    exact .extend s.pending s.pendingBytes h hended hn
      (fun _ hh => hh) hrest (.inl ⟨rfl, List.getLast?_eq_none_iff.mp hlast⟩)
  | some last =>
    have hmem := mem_between.mp (List.mem_of_getLast? hlast)
    have hmax : max last.sequence window.scannedThrough =
        max s.queuedThrough window.scannedThrough := by omega
    have hext := Follows.extend (o := o) (F := F) s.pending s.pendingBytes h hended hn (fun _ hh => hh) hrest (.inr rfl)
    obtain ⟨hp, hb⟩ := sendEvents_pending o s
      (between AgentEvent.sequence log s.queuedThrough (max s.queuedThrough window.scannedThrough))
    dsimp only
    rw [hmax]
    rw [← hp, ← hb] at hext
    exact hext

theorem Follows.fillWindow (hlog : Ascending AgentEvent.sequence log) (h : Side log s)
    {fill : Fill} (hfill : s.filling = some fill) {window : Window}
    (hw : WindowOk log fill.cursor fill.through window) :
    Follows o log F s (fillWindow o s fill window) := by
  have hended : s.sync = .ended := by
    by_contra hs
    exact absurd (h.presync hs).2.1 (by simp [hfill])
  have hq := Follows.queueFresh (o := o) (F := F) h hended (h.fill fill hfill) hw
  unfold Realtime.fillWindow
  dsimp only
  split
  · rename_i hmore
    rw [← hw.2.2 hmore]
    have hd := hq.trans (.discardDelivered hq.side)
    exact hd.trans (.drain hlog hd.side)
  · split
    · have hr := hq.trans (.resync hq.side .cursorExpired)
      exact hr.trans (.endFill hr.side)
    · exact hq.trans (.fillLoop hlog hq.side _)

/-! ## Sends -/

/-- The fields a send or a job of `#sendTail` leaves as they are. -/
def standing (s : Subscriber) :=
  (s.start, s.syncBuffer, s.pending, s.state, s.queuedThrough, s.filling, s.sink)

/-- A send hands over what was next to go out. -/
theorem Follows.hand {t : Subscriber} {m : HostMessage} (ht : Side log t)
    (hstanding : standing t = standing s) (hthrough : through t = through s)
    (hended : t.sync = .ended ↔ s.sync = .ended) (hout : outgoing s = messageItems m ++ outgoing t)
    (hfirst : ¬ (t.sync = .membership ∨ t.sync = .snapshot)) :
    Follows o log F s (send o t m) := by
  simp only [standing, Prod.mk.injEq] at hstanding
  obtain ⟨h₁, h₂, h₃, h₄, h₅, h₆, h₇⟩ := hstanding
  obtain ⟨sink, visibleThrough, handedThrough, he, hprefix, hhanded⟩ := send_shape o t m
  rw [he]
  refine .of_course ⟨ht.presync, ht.syncing, ht.waiting, ht.held, ht.buffered, ht.fill,
    fun hs => absurd hs hfirst, ht.fromZero, ht.queued_le, ht.jobs⟩ ?_ (fun n hn => ?_) hended.mpr
    (h₇ ▸ hprefix) h₄
  · have hitems : handed sink ++ (outgoing t).filter (isShown o) =
        handed s.sink ++ (outgoing s).filter (isShown o) := by
      rw [hhanded, h₇, hout, List.filter_append, List.append_assoc]
    have hintact : decide (t.sync = .ended) = decide (s.sync = .ended) := decide_eq_decide.mpr hended
    have hcourse : course o { t with sink, visibleThrough, handedThrough } =
        ⟨t.start, through t, !(decide (t.state = .closed) && decide (t.sync = .ended)),
          handed sink ++ (outgoing t).filter (isShown o)⟩ := rfl
    rw [hcourse, hitems, hthrough, h₁, h₄, hintact]
    rfl
  · simpa only [Kept, h₂, h₃, h₄, h₅] using hn

/-- The first job of `#sendTail` moves on, with the same left to go out. -/
theorem Follows.job (h : Side log s) {body : JobBody} {phase phase' : JobPhase} {rest : List Job}
    (htail : s.sendTail = ⟨body, phase⟩ :: rest)
    (hitems : jobItems ⟨body, phase'⟩ = jobItems ⟨body, phase⟩ ∨ s.state = .closed)
    (hrun : runningItems (⟨body, phase'⟩ :: rest) = runningItems (⟨body, phase⟩ :: rest))
    (hmem : ∀ event, .event event ∈ jobItems ⟨body, phase'⟩ →
      .event event ∈ jobItems ⟨body, phase⟩) :
    Follows o log F s { s with sendTail := ⟨body, phase'⟩ :: rest } := by
  refine .of_course ⟨fun hs => ?_, h.syncing, ?_, h.held, h.buffered, h.fill, h.unsent, h.fromZero,
    h.queued_le, ?_⟩ ?_ (fun n hn => hn) id List.prefix_rfl rfl
  · exact absurd (h.presync hs).1 (by simp [htail])
  · have := h.waiting
    rw [htail] at this
    exact this
  · have hjobs := h.jobs
    rw [htail] at hjobs
    obtain ⟨hjob, hrest⟩ := List.forall_mem_cons.mp hjobs
    exact List.forall_mem_cons.mpr ⟨fun event he => hjob event (hmem event he), hrest⟩
  · rcases hitems with hi | hc
    · simp only [course, outgoing, through, htail, hrun, tailItems, List.flatMap_cons, hi]
    · simp only [course, outgoing, through, htail, hrun, hc, if_true]

theorem sync_ended_of_tail (h : Side log s) {job : Job} {rest : List Job}
    (htail : s.sendTail = job :: rest) : s.sync = .ended := by
  by_contra hs
  exact absurd (h.presync hs).1 (by simp [htail])

/-- The next batch of the first job of `#sendTail` is handed over. -/
theorem Follows.batch (h : Side log s) {body : JobBody} {phase : JobPhase} {rest : List Job}
    {first : List AgentEvent} {batches : List (List AgentEvent)}
    (htail : s.sendTail = ⟨body, phase⟩ :: rest)
    (hitems : jobItems ⟨body, phase⟩ = (first ++ batches.flatten).map .event)
    (hrun : s.state = .closed → phase = .sending (first :: batches)) :
    Follows o log F s
      (send o { s with sendTail := ⟨body, .sending batches⟩ :: rest } (.events first)) := by
  have hended := sync_ended_of_tail h htail
  have hjob : jobItems ⟨body, .sending batches⟩ = batches.flatten.map .event := by
    cases body <;> rfl
  have hwaiting := h.waiting
  have hjobs := h.jobs
  rw [htail] at hwaiting hjobs
  obtain ⟨hhead, hrest⟩ := List.forall_mem_cons.mp hjobs
  refine .hand ⟨fun hs => absurd hended hs, h.syncing, hwaiting, h.held, h.buffered, h.fill,
    h.unsent, h.fromZero, h.queued_le, List.forall_mem_cons.mpr ⟨fun event he => ?_, hrest⟩⟩ rfl rfl
    Iff.rfl ?_ (by simp [hended])
  · refine hhead event ?_
    rw [hjob] at he
    rw [hitems, List.map_append]
    exact List.mem_append_right _ he
  · by_cases hc : s.state = .closed
    · simp [outgoing, hended, syncItems, hc, htail, hrun hc, runningItems, messageItems]
    · simp [outgoing, hended, syncItems, hc, htail, tailItems, hitems, hjob, messageItems]

/-- A job that fails closes the subscriber, and what it had left is not sent. -/
theorem Follows.dropJob {s' : Subscriber} (h : Side log s) {body : JobBody} {phase : JobPhase}
    {rest : List Job} (htail : s.sendTail = ⟨body, phase⟩ :: rest) (hfault : F)
    (hc : Closing { s with sendTail := ⟨body, .settled⟩ :: rest } s') :
    Follows o log F s s' := by
  have hended := sync_ended_of_tail h htail
  obtain ⟨gapTimer, resyncing, sink, rfl, hprefix, hsink⟩ := hc
  have hwaiting := h.waiting
  have hjobs := h.jobs
  rw [htail] at hwaiting hjobs
  refine ⟨⟨fun hs => absurd hended hs, by simp, hwaiting, h.held, h.buffered, h.fill,
    by simp [hended], by simp [hended], by simp [through, hended], List.forall_mem_cons.mpr
      ⟨fun event he => by cases body <;> simp [jobItems] at he, (List.forall_mem_cons.mp hjobs).2⟩⟩,
    ?_, fun n _ => .inl rfl, id, hprefix, fun _ => .inr (.inr hfault)⟩
  refine steps_cut (handed s.sink) (n := s.queuedThrough) (List.prefix_append _ _) ?_
  simp only at hsink
  simp [course, outgoing, through, hended, syncItems, runningItems, hsink]

/-- No room on the wire: an event of the log as large as a message may be. -/
def Oversize (o : Options) (log : List AgentEvent) : Prop :=
  ∃ event ∈ log, o.maxWireBytes ≤ hostEventsEnvelopeBytes + o.eventBytes event

theorem Follows.startJob (h : Side log s) (hfault : Oversize o log → F) {body : JobBody}
    {rest : List Job} (htail : s.sendTail = ⟨body, .waiting⟩ :: rest) :
    Follows o log F s (startJob o s body rest) := by
  have hended := sync_ended_of_tail h htail
  have hsettle : (jobItems ⟨body, .waiting⟩ = [] ∨ s.state = .closed) →
      Follows o log F s { s with sendTail := ⟨body, .settled⟩ :: rest } := fun hi =>
    .job h htail (hi.imp (fun hi => by rw [hi]; cases body <;> rfl) id) rfl
      (fun event he => by cases body <;> simp [jobItems] at he)
  -- A job that sends no events hands over what it is, if it still may.
  have hsend : ∀ m, messageItems m = jobItems ⟨body, .waiting⟩ → s.state = .live →
      Follows o log F s
        (send o { s with sendTail := ⟨body, .sending []⟩ :: rest } m) := by
    intro m hm hlive
    have hwaiting := h.waiting
    have hjobs := h.jobs
    rw [htail] at hwaiting hjobs
    have hnil : jobItems ⟨body, .sending []⟩ = [] := by cases body <;> rfl
    refine .hand ⟨fun hs => absurd hended hs, h.syncing, hwaiting, h.held, h.buffered, h.fill,
      h.unsent, h.fromZero, h.queued_le, List.forall_mem_cons.mpr
        ⟨fun event he => by simp [hnil] at he, (List.forall_mem_cons.mp hjobs).2⟩⟩ rfl rfl Iff.rfl ?_
      (by simp [hended])
    simp [outgoing, hended, syncItems, hlive, htail, tailItems, hm, hnil]
  cases body with
  | events events =>
    unfold Realtime.startJob
    dsimp only
    split
    · exact hsettle (.inr ‹_›)
    · rename_i hopen
      cases hbatches : boundedEventBatches o events with
      | none =>
        obtain ⟨event, he, hsize⟩ := boundedEventBatches_none hbatches
        have hlog : event ∈ log := h.jobs _ (htail ▸ List.mem_cons_self ..) event
          (List.mem_map_of_mem he)
        refine .dropJob h htail (hfault ⟨event, hlog, hsize⟩) (failDelivery_closing _)
      | some out =>
        have hflat := boundedEventBatches_flatten hbatches
        cases out with
        | nil => exact hsettle (.inl (by simp [jobItems, ← hflat]))
        | cons first batches =>
          exact .batch h htail (by simp [jobItems, ← hflat]) (fun hc => absurd hc hopen)
  | synchronized => exact hsettle (.inl rfl)
  | live frame bytes =>
    by_cases hlive : s.state = .live
    · simpa only [Realtime.startJob, jobSends, if_pos hlive] using
        hsend (.live frame frame.afterSequence) rfl hlive
    · have hclosed : s.state = .closed := by
        cases hs : s.state with
        | synchronizing => exact absurd hended (h.syncing hs)
        | live => exact absurd hs hlive
        | closed => rfl
      simpa only [Realtime.startJob, jobSends, if_neg hlive] using hsettle (.inr hclosed)
  | message message =>
    by_cases hlive : s.state = .live
    · simpa only [Realtime.startJob, jobSends, if_pos hlive] using hsend (.queued message) rfl hlive
    · simpa only [Realtime.startJob, jobSends, if_neg hlive] using hsettle (.inl rfl)

theorem Follows.finishJob (h : Side log s) {body : JobBody} {rest : List Job}
    (htail : s.sendTail = ⟨body, .settled⟩ :: rest) :
    Follows o log F s (finishJob o s body rest) := by
  have hended := sync_ended_of_tail h htail
  have hwaiting := h.waiting
  have hjobs := h.jobs
  rw [htail, List.tail_cons] at hwaiting
  rw [htail] at hjobs
  have hrun : runningItems rest = [] := by
    cases rest with
    | nil => rfl
    | cons job rest =>
      obtain ⟨b, phase⟩ := job
      have : phase = .waiting := hwaiting _ (List.mem_cons_self ..)
      rw [this]
      rfl
  have hsettled : jobItems ⟨body, .settled⟩ = [] := by cases body <;> rfl
  have hdone : Follows o log F s { s with sendTail := rest } := by
    refine .of_course ⟨fun hs => absurd hended hs, h.syncing,
      fun job hj => hwaiting job (List.mem_of_mem_tail hj), h.held, h.buffered, h.fill, h.unsent,
      h.fromZero, h.queued_le, (List.forall_mem_cons.mp hjobs).2⟩ ?_ (fun n hn => hn) id
      List.prefix_rfl rfl
    have hrun' : runningItems (⟨body, .settled⟩ :: rest) = [] := rfl
    simp [course, outgoing, through, htail, tailItems, hsettled, hrun, hrun']
  unfold Realtime.finishJob
  cases body with
  | events events => exact hdone.trans (.of_core hdone.side rfl)
  | live frame bytes => exact hdone.trans (.of_core hdone.side rfl)
  | synchronized => exact hdone
  | message message => exact hdone

theorem Follows.jobSendRejects (h : Side log s) (hfault : F) {body : JobBody}
    {phase : JobPhase} {rest : List Job} (htail : s.sendTail = ⟨body, phase⟩ :: rest) :
    Follows o log F s (jobSendRejects s body rest) := by
  unfold Realtime.jobSendRejects
  dsimp only
  split
  · exact .dropJob h htail hfault (close_closing _)
  · exact .dropJob h htail hfault (failDelivery_closing _)

/-! ## Synchronizing -/

/-- `synchronize` waits with nothing of its own to send next. -/
def SyncIdle : SyncPhase → Prop
  | .viewerSnapshot | .batches [] | .notices _ | .viewerMessage => True
  | _ => False

theorem SyncIdle.facts {sync : SyncPhase} (h : SyncIdle sync) :
    syncItems sync = [] ∧ sync ≠ .ended ∧ ¬ (sync = .membership ∨ sync = .snapshot) ∧
      ∀ s : Subscriber, s.sync = sync → through s = s.queuedThrough := by
  unfold SyncIdle at h
  split at h
  · exact ⟨rfl, by simp, by simp, fun s hs => by simp [through, hs]⟩
  · exact ⟨rfl, by simp, by simp, fun s hs => by simp [through, hs]⟩
  · exact ⟨rfl, by simp, by simp, fun s hs => by simp [through, hs]⟩
  · exact ⟨rfl, by simp, by simp, fun s hs => by simp [through, hs]⟩
  · cases h

/-- From one wait of `synchronize` to another, with nothing to send in between. -/
theorem Follows.idle (sync : SyncPhase) (h : Side log s) (hidle : SyncIdle s.sync)
    (hsync : SyncIdle sync) : Follows o log F s { s with sync } := by
  obtain ⟨hitems, hended, -, hthrough⟩ := hidle.facts
  obtain ⟨hitems', hended', hfirst', hthrough'⟩ := hsync.facts
  have ht : through { s with sync } = s.queuedThrough := hthrough' _ rfl
  refine .of_course ⟨fun _ => h.presync hended, fun _ => hended', h.waiting, h.held, h.buffered,
    h.fill, fun hs => absurd hs hfirst', fun hs => absurd (.inr hs) hfirst', ht.ge, h.jobs⟩ ?_
    (fun n hn => hn) (fun hs => absurd hs hended) List.prefix_rfl rfl
  simp [course, outgoing, ht, hthrough s rfl, hitems, hitems', hended, hended']

/-- A message with nothing of the course, sent while `synchronize` is idle. -/
theorem Follows.sendIdle (h : Side log s) (hidle : SyncIdle s.sync) (m : HostMessage)
    (hm : messageItems m = []) : Follows o log F s (send o s m) := by
  obtain ⟨-, -, hfirst, -⟩ := hidle.facts
  exact .hand h rfl rfl Iff.rfl (by rw [hm]; rfl) hfirst

theorem Follows.goLive (hlog : Ascending AgentEvent.sequence log) (h : Side log s)
    (hidle : SyncIdle s.sync) (hopen : s.state ≠ .closed) (liveFrames : List LiveFrame) :
    Follows o log F s (goLive o s liveFrames) := by
  obtain ⟨hitems, hended, hfirst, hthrough⟩ := hidle.facts
  obtain ⟨htail, hfill, hlive⟩ := h.presync hended
  obtain ⟨sink, visibleThrough, handedThrough, hs, hprefix, hhanded⟩ :=
    send_shape o s (.synchronized s.queuedThrough)
  have hthrough := hthrough s rfl
  have hsink : handed sink = handed s.sink := by simpa [messageItems] using hhanded
  have hgo : Follows o log F s { s with
      sink, visibleThrough, handedThrough
      sendTail := [⟨.synchronized, .sending []⟩], state := .live, sync := .ended } := by
    refine ⟨⟨fun hs => absurd rfl hs, by simp, by simp, h.held, h.buffered, by simp [hfill],
      by simp, by simp, Nat.le_refl _, by simp [jobItems]⟩, steps_same ?_, fun n hn => ?_,
      fun _ => rfl, hprefix, by simp⟩
    · have hnil : syncItems .ended = [] := rfl
      simp only [course, hthrough, Course.mk.injEq]
      refine ⟨trivial, rfl, by simp [hopen], ?_⟩
      simp [outgoing, hitems, hsink, hopen, htail, hnil, tailItems, jobItems]
    · exact .inr (hn.resolve_left hopen)
  unfold Realtime.goLive
  rw [hs]
  have hframes := hgo.trans (.offerLiveFrames hgo.side rfl liveFrames)
  exact hframes.trans (.drain hlog hframes.side)

theorem Follows.syncQuiet (hlog : Ascending AgentEvent.sequence log) (h : Side log s)
    (hidle : SyncIdle s.sync) (hopen : s.state ≠ .closed) (liveFrames : List LiveFrame) :
    Follows o log F s (syncQuiet o s liveFrames) := by
  unfold Realtime.syncQuiet
  split
  · rename_i notice rest hnotices
    have hrest : Follows o log F s { s with syncNotices := rest } := .of_core h rfl
    split
    · exact hrest.trans (.idle _ hrest.side hidle trivial)
    · rename_i first others hwire
      have ht : Follows o log F s { s with syncNotices := rest, sync := .notices others } :=
        hrest.trans (.idle _ hrest.side hidle trivial)
      exact ht.trans (.sendIdle ht.side trivial _ rfl)
  · split
    · rename_i message rest hmessages
      have hrest : Follows o log F s { s with
          syncViewerMessages := rest
          viewerBufferedBytes := s.viewerBufferedBytes - viewerBytes message } := .of_core h rfl
      have ht := hrest.trans (.idle .viewerMessage hrest.side hidle trivial)
      exact ht.trans (.sendIdle ht.side trivial _ rfl)
    · exact .goLive hlog h hidle hopen liveFrames

/-- The buffered events are held, or the subscriber closes. -/
theorem follows_holdBuffered {events : List AgentEvent} (hmem : ∀ event ∈ events, event ∈ log)
    (h : Side log s) :
    Follows o log F s (holdBuffered o s events).1 ∧
      (holdBuffered o s events).1.sync = s.sync ∧
      ((holdBuffered o s events).2 = true → (holdBuffered o s events).1.state = s.state ∧
        ∀ event ∈ events, Kept (holdBuffered o s events).1 event.sequence) ∧
      ((holdBuffered o s events).2 = false → (holdBuffered o s events).1.state = .closed) := by
  induction events generalizing s with
  | nil => exact ⟨.refl h, rfl, fun _ => ⟨rfl, by simp⟩, by simp [holdBuffered]⟩
  | cons event rest ih =>
    obtain ⟨he, hrest⟩ := List.forall_mem_cons.mp hmem
    unfold holdBuffered
    split
    · obtain ⟨hf, hkept, hsync, -, -, hstate, hclosed⟩ :=
        follows_hold (o := o) (F := F) h he
      split
      · rename_i t hs
        rw [hs] at hf hkept hsync hstate
        obtain ⟨hf', hsync', hok, hno⟩ := ih hrest hf.side
        refine ⟨hf.trans hf', hsync'.trans hsync, fun hb => ?_, hno⟩
        obtain ⟨hst, hall⟩ := hok hb
        exact ⟨hst.trans (hstate rfl),
          List.forall_mem_cons.mpr ⟨hf'.keeps _ hkept, hall⟩⟩
      · rename_i t hs
        rw [hs] at hf hsync hclosed
        exact ⟨hf, hsync, by simp, fun _ => hclosed rfl⟩
    · rename_i hold
      obtain ⟨hf', hsync', hok, hno⟩ := ih hrest h
      refine ⟨hf', hsync', fun hb => ⟨(hok hb).1, List.forall_mem_cons.mpr ⟨?_, (hok hb).2⟩⟩, hno⟩
      exact hf'.keeps _ (.inr (.inl (Nat.le_of_not_lt hold)))

/-- `synchronize` takes what continues the stream, to send in batches. -/
theorem Follows.syncTake (pending : List HeldEvent) (pendingBytes : Int) (sync : SyncPhase)
    (h : Side log s) (hidle : SyncIdle s.sync) (hopen : s.state ≠ .closed) {n : Nat}
    (hn : s.queuedThrough ≤ n) (hsub : ∀ held ∈ pending, held ∈ s.pending)
    (hrest : ∀ held ∈ s.pending, held ∈ pending ∨ held.event.sequence ≤ n)
    (hitems : syncItems sync =
      (between AgentEvent.sequence log s.queuedThrough n).map .event)
    (hended : sync ≠ .ended) (hfirst : ¬ (sync = .membership ∨ sync = .snapshot))
    (hthrough : ∀ t : Subscriber, t.sync = sync → through t = t.queuedThrough) :
    Follows o log F s
      { s with pending, pendingBytes, queuedThrough := n, sync } := by
  obtain ⟨hnil, hended', -, hthrough'⟩ := hidle.facts
  obtain ⟨htail, hfill, hlive⟩ := h.presync hended'
  have ht : through { s with pending, pendingBytes, queuedThrough := n, sync } = n :=
    hthrough _ rfl
  refine ⟨⟨fun _ => ⟨htail, hfill, hlive⟩, fun _ => hended, h.waiting,
    fun held hh => h.held held (hsub held hh), h.buffered, by simp [hfill],
    fun hs => absurd hs hfirst, fun hs => absurd (.inr hs) hfirst, ht.ge, h.jobs⟩, ?_,
    fun m hm => ?_, fun hs => absurd hs hended', List.prefix_rfl, .inl⟩
  · refine steps_take (n := n) (by simp [course, hopen]) (by rw [hthrough' s rfl]; exact hn) ?_
    simp only [course, ht, hthrough' s rfl, Course.mk.injEq]
    refine ⟨trivial, trivial, by simp [hopen], ?_⟩
    simp [outgoing, hnil, hitems, hopen, htail, tailItems, filter_isShown]
  · rcases hm with hc | hm | ⟨held, hh, rfl⟩ | hb
    · exact .inl hc
    · exact .inr (.inl (hm.trans hn))
    · rcases hrest held hh with hp | hp
      · exact .inr (.inr (.inl ⟨held, hp, rfl⟩))
      · exact .inr (.inl hp)
    · exact .inr (.inr (.inr hb))

theorem Follows.syncLoop (hlog : Ascending AgentEvent.sequence log) (h : Side log s)
    (hfault : Oversize o log → F) (hidle : SyncIdle s.sync) (liveFrames : List LiveFrame) :
    Follows o log F s (syncLoop o s liveFrames) := by
  obtain ⟨hnil, hended, hfirst, hthrough⟩ := hidle.facts
  unfold Realtime.syncLoop
  split
  · rename_i hstate
    refine .ends h ?_
    cases hs : s.state with
    | synchronizing => exact absurd hs hstate
    | live => exact absurd hs (h.presync hended).2.2
    | closed => rfl
  · rename_i hstate
    have hstate : s.state = .synchronizing := by simpa using hstate
    have hcleared : Side log { s with syncBuffer := [] } :=
      ⟨h.presync, h.syncing, h.waiting, h.held, by simp, h.fill, h.unsent, h.fromZero, h.queued_le,
        h.jobs⟩
    obtain ⟨hf, hsync, hok, hno⟩ := follows_holdBuffered (o := o) (F := F) h.buffered hcleared
    -- The events of the buffer are held in its place.
    have hheld : Follows o log F s (holdBuffered o { s with syncBuffer := [] } s.syncBuffer).1 := by
      refine ⟨hf.side, hf.steps, fun n hn => ?_, hf.ended, hf.sent, hf.closes⟩
      cases hb : (holdBuffered o { s with syncBuffer := [] } s.syncBuffer).2 with
      | false => exact .inl (hno hb)
      | true =>
        rcases hn with hc | hq | hp | ⟨event, he, rfl⟩
        · exact hf.keeps n (.inl hc)
        · exact hf.keeps n (.inr (.inl hq))
        · exact hf.keeps n (.inr (.inr (.inl hp)))
        · exact (hok hb).2 event he
    split
    · rename_i t hs
      rw [hs] at hheld hno
      exact hheld.trans (.ends hheld.side (hno rfl))
    · rename_i t hs
      rw [hs] at hheld hsync hok
      have hidle : SyncIdle t.sync := hsync ▸ hidle
      have hopen : t.state ≠ .closed := by rw [(hok rfl).1, hstate]; simp
      have hcount : Follows o log F t { t with syncBufferedBytes := 0 } := .of_core hheld.side rfl
      have ht := hheld.trans hcount
      obtain ⟨hnil, hended, hfirst, hthrough⟩ := hidle.facts
      obtain ⟨pending, pendingBytes, n, he, hn, hsub, hrest⟩ :=
        takeContiguous_takesTo hlog { t with syncBufferedBytes := 0 } ht.side.held
      rw [he]
      dsimp only
      rw [List.nil_append]
      split
      · rename_i hbatch
        have htake := ht.trans (.syncTake pending pendingBytes t.sync ht.side hidle hopen hn hsub hrest
          (by rw [hnil, hbatch]; rfl) hended hfirst hthrough)
        exact htake.trans (.syncQuiet hlog htake.side hidle hopen liveFrames)
      · rename_i hbatch
        have htake := ht.trans (.syncTake pending pendingBytes
          (.batches [between AgentEvent.sequence log t.queuedThrough n]) ht.side hidle hopen
          hn hsub hrest (by simp [syncItems]) (by simp) (by simp)
          (fun t ht => by simp [through, ht]))
        cases hbatches : boundedEventBatches o
            (between AgentEvent.sequence log t.queuedThrough n) with
        | none =>
          obtain ⟨event, he, hsize⟩ := boundedEventBatches_none hbatches
          have hfault := hfault ⟨event, (mem_between.mp he).1, hsize⟩
          exact htake.trans (.closeEnded htake.side hfault)
        | some out =>
          have hflat := boundedEventBatches_flatten hbatches
          cases out with
          | nil => exact absurd hflat.symm hbatch
          | cons first rest =>
            refine htake.trans (.hand ?_ rfl (by simp [through]) (by simp) ?_ (by simp))
            · have hside := htake.side
              exact ⟨fun _ => hside.presync (by simp), fun _ => by simp, hside.waiting, hside.held,
                hside.buffered, hside.fill, by simp, by simp, by simp [through], hside.jobs⟩
            · simp [outgoing, syncItems, ← hflat, messageItems]

theorem Follows.syncMessages (h : Side log s) {messages : List HostMessage} {cursor : Nat}
    (hended : s.sync ≠ .ended) (hitems : syncItems s.sync = messages.flatMap messageItems)
    (hthrough : through s = cursor) (hq : s.queuedThrough ≤ cursor) :
    Follows o log F s (syncMessages o s messages cursor) := by
  obtain ⟨htail, hfill, hlive⟩ := h.presync hended
  unfold Realtime.syncMessages
  split
  · refine .of_course ⟨fun _ => ⟨htail, hfill, hlive⟩, fun _ => by simp, h.waiting, h.held,
      h.buffered, by simp [hfill], by simp, by simp, Nat.le_refl _, h.jobs⟩ ?_ (fun n hn => ?_)
      (fun hs => absurd hs hended) List.prefix_rfl rfl
    · have hnil : syncItems .viewerSnapshot = [] := rfl
      simp only [List.flatMap_nil] at hitems
      have hcursor : through { s with queuedThrough := cursor, sync := .viewerSnapshot } = cursor :=
        rfl
      simp [course, outgoing, hthrough, hcursor, hitems, hnil, hended]
    · rcases hn with hc | hn | hn
      · exact .inl hc
      · exact .inr (.inl (hn.trans hq))
      · exact .inr (.inr hn)
  · rename_i first rest
    refine .hand ⟨fun _ => ⟨htail, hfill, hlive⟩, fun _ => by simp, h.waiting, h.held,
      h.buffered, by simp [hfill], by simp, by simp, hq, h.jobs⟩ rfl hthrough.symm
      (by simp [hended]) ?_ (by simp)
    simp only [outgoing, hitems]
    simp [syncItems]

/-- The messages that carry batches of events, to replay. -/
theorem flatMap_batches (batches : List (List AgentEvent)) :
    (batches.map HostMessage.events).flatMap messageItems = batches.flatten.map .event := by
  induction batches with
  | nil => rfl
  | cons batch batches ih => simp [messageItems, ← ih]

theorem Follows.replayWindow (h : Side log s) (hfault : Oversize o log → F)
    {cursor head replayBytes replayEvents : Nat} {messages : List HostMessage}
    (hsync : s.sync = .replay cursor head replayBytes replayEvents messages) {window : Window}
    (hw : WindowOk log cursor head window) :
    Follows o log F s
      (replayWindow o s cursor head replayBytes replayEvents messages window) := by
  have hended : s.sync ≠ .ended := by simp [hsync]
  obtain ⟨htail, hfill, hlive⟩ := h.presync hended
  have hthrough : through s = cursor := by simp [through, hsync]
  unfold Realtime.replayWindow
  dsimp only
  split
  · exact .resyncEnded h _
  · rename_i hscanned
    split
    · exact .resyncEnded h _
    · cases hbatches : boundedEventBatches o window.events with
      | none =>
        obtain ⟨event, he, hsize⟩ := boundedEventBatches_none hbatches
        rw [hw.1] at he
        exact .closeEnded h (hfault ⟨event, (mem_between.mp he).1, hsize⟩)
      | some batches =>
        have hflat := boundedEventBatches_flatten hbatches
        dsimp only
        split
        · exact .resyncEnded h _
        · have hle : s.queuedThrough ≤ window.scannedThrough := by
            have := h.queued_le
            omega
          have hitems : (messages ++ batches.map HostMessage.events).flatMap messageItems =
              syncItems s.sync ++ (between AgentEvent.sequence log cursor
                window.scannedThrough).map .event := by
            rw [List.flatMap_append, flatMap_batches, hflat, hw.1, hsync]
            rfl
          have ht : Follows o log F s { s with
              sync := .replay window.scannedThrough head (replayBytes + window.byteCount)
                (replayEvents + window.events.length) (messages ++ batches.map .events) } := by
            refine ⟨⟨fun _ => ⟨htail, hfill, hlive⟩, fun _ => by simp, h.waiting, h.held,
              h.buffered, by simp [hfill], by simp, by simp, hle, h.jobs⟩, ?_, fun n hn => hn,
              fun hs => absurd hs hended, List.prefix_rfl, .inl⟩
            refine steps_take (n := window.scannedThrough) (by simp [course, hended])
              (by rw [hthrough]; omega) ?_
            have hreplay : ∀ a b c d e, syncItems (.replay a b c d e) = e.flatMap messageItems :=
              fun _ _ _ _ _ => rfl
            simp only [course, hthrough, Course.mk.injEq]
            refine ⟨trivial, rfl, by simp [hended], ?_⟩
            simp only [outgoing, hreplay, hitems, htail]
            simp [filter_isShown, runningItems, tailItems]
          unfold replayLoop
          split
          · exact ht
          · exact ht.trans (.syncMessages (o := o) ht.side (by simp) rfl rfl hle)

/-! ## The machine -/

/-- What the surroundings promise: a published event is one of the log, and a
read returns what the log has after the asked cursor. -/
def Legal (log : List AgentEvent) (s : Subscriber) : Action → Prop
  | .offer event => event ∈ log
  | .replayResolves window =>
    match s.sync with
    | .replay cursor head _ _ _ => WindowOk log cursor head window
    | _ => True
  | .fillResolves window =>
    match s.filling with
    | some fill => WindowOk log fill.cursor fill.through window
    | none => True
  | _ => True

instance (log : List AgentEvent) (s : Subscriber) (a : Action) : Decidable (Legal log s a) := by
  unfold Legal
  cases a <;> dsimp only <;> try infer_instance
  · split <;> infer_instance
  · split <;> infer_instance

/-- The actions that close a subscriber without a resync: it is told to close,
or its subscription or a send fails. -/
def isFault : Action → Bool
  | .membershipResolves isActive => !isActive
  | .subscribeRejects | .syncSendRejects | .close | .jobSendRejects => true
  | _ => false

theorem Follows.enqueueMessage (h : Side log s) (message : QueuedMessage) :
    Follows o log F s (enqueueMessage o s message) := by
  unfold Realtime.enqueueMessage
  split
  · split
    · exact .of_core h rfl
    · split
      · exact .resync h _
      · exact .of_core h rfl
    · exact .refl h
  · rename_i hlive
    have hended : s.sync = .ended := by
      by_contra hs
      exact (h.presync hs).2.2 hlive
    refine .of_course ⟨fun hs => absurd hended hs, h.syncing, waiting_append h.waiting _, h.held,
      h.buffered, h.fill, h.unsent, h.fromZero, h.queued_le,
      List.forall_mem_append.mpr ⟨h.jobs, by simp [jobItems]⟩⟩ ?_ (fun n hn => hn) id
      List.prefix_rfl rfl
    simp [course, outgoing, through, addJob, hlive, tailItems, jobItems]
  · exact .refl h

/-- A snapshot stands for all up to its sequence: the course starts there. -/
theorem Follows.snapshot (h : Side log s) (hsync : s.sync = .snapshot) (sequence : Nat) :
    Follows o log F s
      (Realtime.syncMessages o { s with start := sequence } [.snapshot sequence] sequence) := by
  have hended : s.sync ≠ .ended := by simp [hsync]
  obtain ⟨htail, hfill, hlive⟩ := h.presync hended
  have hunsent := h.unsent (.inr hsync)
  have ht : Follows o log F s { s with start := sequence } := by
    refine ⟨⟨h.presync, h.syncing, h.waiting, h.held, h.buffered, h.fill, h.unsent, h.fromZero, ?_,
      h.jobs⟩, ?_, fun n hn => hn, id, List.prefix_rfl, .inl⟩
    · rw [show ({ s with start := sequence } : Subscriber).queuedThrough = 0 from h.fromZero hsync]
      exact Nat.zero_le _
    · have hnil : (course o s).items = [] := by
        simp [course, outgoing, hsync, syncItems, htail, hunsent, runningItems, tailItems]
      have he : course o { s with start := sequence } =
          { course o s with start := sequence, through := sequence } := by
        simp [course, outgoing, through, hsync]
      rw [he]
      exact .single (.restart hnil)
  refine ht.trans (.syncMessages ht.side hended ?_ (by simp [through, hsync]) ?_)
  · simp [hsync, syncItems, messageItems]
  · rw [show ({ s with start := sequence } : Subscriber).queuedThrough = 0 from h.fromZero hsync]
    exact Nat.zero_le _

theorem Follows.syncSendResolves (hlog : Ascending AgentEvent.sequence log) (h : Side log s)
    (hfault : Oversize o log → F) {liveFrames : List LiveFrame} {s' : Subscriber}
    (hs : syncSendResolves o s liveFrames = some s') : Follows o log F s s' := by
  unfold Realtime.syncSendResolves at hs
  split at hs
  · rename_i rest cursor hsync
    cases hs
    refine .syncMessages h (by simp [hsync]) (by rw [hsync]; rfl) (by simp [through, hsync]) ?_
    simpa [through, hsync] using h.queued_le
  · rename_i next rest hsync
    cases hs
    have hended : s.sync ≠ .ended := by simp [hsync]
    refine .hand ⟨fun _ => h.presync hended, fun _ => by simp, h.waiting, h.held, h.buffered,
      h.fill, by simp, by simp, by simp [through], h.jobs⟩ rfl (by simp [through, hsync])
      (by simp [hsync]) (by simp [outgoing, hsync, syncItems, messageItems]) (by simp)
  · rename_i next rest hsync
    cases hs
    have ht : Follows o log F s { s with sync := .notices rest } :=
      .idle _ h (by rw [hsync]; trivial) trivial
    exact ht.trans (.sendIdle ht.side trivial _ rfl)
  · rename_i hsync
    cases hs
    exact .syncLoop hlog h hfault (by rw [hsync]; trivial) _
  · rename_i hsync
    cases hs
    exact .syncLoop hlog h hfault (by rw [hsync]; trivial) _
  · rename_i hsync
    cases hs
    exact .syncLoop hlog h hfault (by rw [hsync]; trivial) _
  · cases hs

theorem follows_step (hlog : Ascending AgentEvent.sequence log) (h : Side log s) {a : Action}
    {s' : Subscriber} (hlegal : Legal log s a) (hs : step o s a = some s') :
    Follows o log (isFault a = true ∨ Oversize o log) s s' := by
  cases a with
  | membershipResolves isActive =>
    simp only [step] at hs
    split at hs <;> cases hs
    rename_i hsync
    have hended : s.sync ≠ .ended := by simp [hsync]
    cases isActive with
    | false => exact .closeEnded h (.inl rfl)
    | true =>
      have hthrough : through s = s.start := by simp [through, hsync]
      have hitems : syncItems s.sync = [] := by rw [hsync]; rfl
      have hq := h.queued_le
      rw [hthrough] at hq
      simp only [if_true]
      split
      · refine .of_course ⟨fun _ => h.presync hended, fun _ => by simp, h.waiting, h.held,
          h.buffered, h.fill, fun _ => h.unsent (.inl hsync), fun _ => ?_, hq, h.jobs⟩ ?_
          (fun n hn => hn) (fun hs => absurd hs hended) List.prefix_rfl rfl
        · change s.queuedThrough = 0
          omega
        · simp only [course, outgoing, hthrough, hitems]
          simp [through, syncItems, hended]
      · refine .of_course ⟨fun _ => h.presync hended, fun _ => by simp, h.waiting, h.held,
          h.buffered, h.fill, by simp, by simp, hq, h.jobs⟩ ?_
          (fun n hn => hn) (fun hs => absurd hs hended) List.prefix_rfl rfl
        simp only [course, outgoing, hthrough, hitems]
        simp [through, syncItems, hended]
  | snapshotResolves sequence =>
    simp only [step] at hs
    split at hs <;> cases hs
    rename_i hsync
    exact .snapshot h hsync sequence
  | headResolves head =>
    simp only [step] at hs
    split at hs <;> cases hs
    rename_i hsync
    have hended : s.sync ≠ .ended := by simp [hsync]
    split
    · exact .resyncEnded h _
    · have hthrough : through s = s.start := by simp [through, hsync]
      have hitems : syncItems s.sync = [] := by rw [hsync]; rfl
      have hq := h.queued_le
      rw [hthrough] at hq
      unfold replayLoop
      split
      · refine .of_course ⟨fun _ => h.presync hended, fun _ => by simp, h.waiting, h.held,
          h.buffered, h.fill, by simp, by simp, hq, h.jobs⟩ ?_
          (fun n hn => hn) (fun hs => absurd hs hended) List.prefix_rfl rfl
        simp only [course, outgoing, hthrough, hitems]
        simp [through, syncItems, hended]
      · exact .syncMessages h hended (by rw [hitems]; rfl) hthrough hq
  | replayResolves window =>
    simp only [step] at hs
    split at hs
    · rename_i cursor head replayBytes replayEvents messages hsync
      cases hs
      simp only [Legal, hsync] at hlegal
      exact .replayWindow h .inr hsync hlegal
    · cases hs
  | subscribeRejects =>
    simp only [step] at hs
    split at hs <;> cases hs
    exact .closeEnded h (.inl rfl)
  | syncSendResolves liveFrames => exact .syncSendResolves hlog h .inr hs
  | syncSendRejects =>
    simp only [step] at hs
    split at hs <;> cases hs
    exact .closeEnded h (.inl rfl)
  | viewerSnapshotSends message =>
    simp only [step] at hs
    split at hs <;> cases hs
    have hsink : handed (s.sink ++ [SinkCall.send (.queued message)]) = handed s.sink := by
      simp [messageItems]
    rename_i hsync
    refine .of_course ⟨h.presync, h.syncing, h.waiting, h.held, h.buffered, h.fill,
      by simp [sinkSend, hsync], h.fromZero, h.queued_le, h.jobs⟩ ?_ (fun n hn => hn) id
      (List.prefix_append _ _) rfl
    simp only [course, sinkSend, hsink]
    rfl
  | viewerSnapshotResolves liveFrames =>
    simp only [step] at hs
    split at hs <;> cases hs
    rename_i hsync
    exact .syncLoop hlog h .inr (by rw [hsync]; trivial) _
  | offer event => cases hs; exact (Follows.offer hlog h hlegal).1
  | offerLive frame =>
    cases hs
    unfold offerLive
    split
    · exact .refl h
    · rename_i hlive
      refine .offerLiveFrame h ?_ _ _
      by_contra hs
      exact hlive (h.presync hs).2.2
  | enqueueMessage message => cases hs; exact .enqueueMessage h message
  | resync reason => cases hs; exact .resync h reason
  | close => cases hs; exact .closing h (close_closing s) (.inr (.inr (.inl rfl)))
  | gapTimerFires =>
    simp only [step] at hs
    split at hs <;> cases hs
    have ht : Follows o log (isFault .gapTimerFires = true ∨ Oversize o log) s
        { s with gapTimer := false } := .of_core h rfl
    exact ht.trans (.fillGap hlog ht.side)
  | fillResolves window =>
    simp only [step] at hs
    split at hs
    · rename_i fill hfill
      cases hs
      simp only [Legal, hfill] at hlegal
      exact .fillWindow hlog h hfill hlegal
    · cases hs
  | fillRejects =>
    simp only [step] at hs
    split at hs <;> cases hs
    have hr := Follows.resync (o := o) (F := isFault .fillRejects = true ∨ Oversize o log) h
      .cursorExpired
    exact hr.trans (.endFill hr.side)
  | jobStarts =>
    simp only [step] at hs
    split at hs
    · rename_i body rest htail
      cases hs
      exact .startJob h .inr htail
    · cases hs
  | jobSendResolves =>
    simp only [step] at hs
    split at hs
    · rename_i body rest htail
      cases hs
      have hjob : jobItems ⟨body, .settled⟩ = jobItems ⟨body, .sending []⟩ := by
        cases body <;> rfl
      exact .job h htail (.inl hjob) rfl
        (fun event he => by cases body <;> simp [jobItems] at he)
    · rename_i body next batches rest htail
      cases hs
      exact .batch h htail (by cases body <;> simp [jobItems]) (fun _ => rfl)
    · cases hs
  | jobSendRejects =>
    simp only [step] at hs
    split at hs
    · rename_i body batches rest htail
      cases hs
      exact .jobSendRejects h (.inl rfl) htail
    · cases hs
  | jobFinishes =>
    simp only [step] at hs
    split at hs
    · rename_i body rest htail
      cases hs
      exact .finishJob h htail
    · cases hs
  | resyncSettles =>
    simp only [step] at hs
    split at hs <;> cases hs
    have hsink : handed (s.sink ++ [SinkCall.close 4009]) = handed s.sink := by simp
    refine .of_course ⟨h.presync, h.syncing, h.waiting, h.held, h.buffered, h.fill,
      fun hu => hsink.trans (h.unsent hu), h.fromZero, h.queued_le, h.jobs⟩ ?_ (fun n hn => hn) id
      (List.prefix_append _ _) rfl
    simp only [course, sinkClose, hsink]
    rfl

end Opensteer.Realtime
