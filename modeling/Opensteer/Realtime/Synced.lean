import Opensteer.Realtime.Delivery

/-!
# What comes before `host.synchronized`, and after

A subscriber that is sent all hands over the events up to where it is
synchronized, then `host.synchronized`, once, and progress only after that
(`Synced`). Every step but three hands over neither (`Plain`): the one that goes
live, the one that starts a job of progress, and, as the subscriber's start
moves, the one that begins with a snapshot.
-/

namespace Opensteer.Realtime

variable {o : Options} {s s' t : Subscriber} {log : List AgentEvent}

/-- A call of the sink with neither `host.synchronized` nor progress. -/
def isPlain : SinkCall → Bool
  | .send (.synchronized _) | .send (.live ..) => false
  | _ => true

/-- The messages `subscribe` has still to send. -/
def unsentMessages : SyncPhase → List HostMessage
  | .replay _ _ _ _ messages => messages
  | .messages rest _ => rest
  | _ => []

def PlainMessages (messages : List HostMessage) : Prop :=
  ∀ message ∈ messages, isPlain (.send message) = true

theorem no_messages : PlainMessages [] := List.forall_mem_nil _

/-- `s'` comes of `s`, from the same start, by plain calls only. -/
structure Plain (s s' : Subscriber) : Prop where
  sink : ∃ calls, s'.sink = s.sink ++ calls ∧ ∀ call ∈ calls, isPlain call = true
  start : s'.start = s.start
  live : s'.state = .live → s.state = .live
  ended : s.sync = .ended → s'.sync = .ended
  unsent : PlainMessages (unsentMessages s.sync) → PlainMessages (unsentMessages s'.sync)

namespace Plain

theorem of_eq (hsink : s'.sink = s.sink) (hstart : s'.start = s.start)
    (hstate : s'.state = s.state) (hsync : s'.sync = s.sync) : Plain s s' where
  sink := ⟨[], by simp [hsink], by simp⟩
  start := hstart
  live h := hstate ▸ h
  ended h := hsync ▸ h
  unsent h := hsync ▸ h

/-- Another wait of `subscribe` or `synchronize`. -/
theorem waits (sync : SyncPhase) (hsync : s.sync ≠ .ended)
    (hm : PlainMessages (unsentMessages sync)) : Plain s { s with sync } :=
  ⟨⟨[], by simp, by simp⟩, rfl, id, fun hs => absurd hs hsync, fun _ => hm⟩

theorem refl (s : Subscriber) : Plain s s := of_eq rfl rfl rfl rfl

theorem trans (h : Plain s t) (h' : Plain t s') : Plain s s' := by
  obtain ⟨calls, hc, hplain⟩ := h.sink
  obtain ⟨calls', hc', hplain'⟩ := h'.sink
  refine ⟨⟨calls ++ calls', by rw [hc', hc, List.append_assoc], ?_⟩, h'.start.trans h.start,
    fun hl => h.live (h'.live hl), fun hs => h'.ended (h.ended hs),
    fun hm => h'.unsent (h.unsent hm)⟩
  exact List.forall_mem_append.mpr ⟨hplain, hplain'⟩

/-- A plain call. -/
theorem call {call : SinkCall} (hplain : isPlain call = true) :
    Plain s { s with sink := s.sink ++ [call] } :=
  ⟨⟨[call], rfl, by simpa using hplain⟩, rfl, id, id, id⟩

theorem send (hplace : o.placeEvents = true) {m : HostMessage}
    (hplain : isPlain (.send m) = true) : Plain s (send o s m) := by
  have hsend : Realtime.send o s m = sinkSend s m := if_pos hplace
  exact hsend ▸ .call hplain

theorem ends (s : Subscriber) : Plain s { s with sync := .ended } :=
  ⟨⟨[], by simp, by simp⟩, rfl, id, fun _ => rfl, fun _ => no_messages⟩

theorem resync (s : Subscriber) (reason : ResyncReason) : Plain s (resync s reason) := by
  unfold Realtime.resync
  split
  · exact .refl s
  · exact ⟨⟨[.send (.resyncRequired reason)], rfl, by simp [isPlain]⟩, rfl, by simp [sinkSend], id, id⟩

theorem close (s : Subscriber) : Plain s (close s) := by
  unfold Realtime.close
  split
  · exact .refl s
  · exact ⟨⟨[], by simp, by simp⟩, rfl, by simp, id, id⟩

theorem failDelivery (s : Subscriber) : Plain s (failDelivery s) := by
  unfold Realtime.failDelivery
  split
  · exact .refl s
  · exact (close s).trans (.call rfl)

/-! ## Holding and draining -/

theorem hold (o : Options) (s : Subscriber) (event : AgentEvent) : Plain s (hold o s event).1 := by
  rcases hold_shape o s event with ⟨hs, -⟩ | ⟨_, _, hs⟩ | ⟨reason, hs⟩
  · rw [hs]; exact .refl s
  · rw [hs]; exact .of_eq rfl rfl rfl rfl
  · rw [hs]; exact .resync s reason

theorem takeContiguousLoop (fuel : Nat) (s : Subscriber) (batch : List AgentEvent) :
    Plain s (takeContiguousLoop fuel s batch).1 := by
  induction fuel generalizing s batch with
  | zero => exact .refl s
  | succ fuel ih =>
    unfold Realtime.takeContiguousLoop
    split
    · exact .refl s
    · refine Plain.trans ?_ (ih _ _)
      exact .of_eq rfl rfl rfl rfl

theorem sendEvents (o : Options) (s : Subscriber) (events : List AgentEvent) :
    Plain s (sendEvents o s events) := by
  rcases sendEvents_shape o s events with hs | ⟨_, _, hs⟩
  · rw [hs]; exact .resync s _
  · rw [hs]; exact .of_eq rfl rfl rfl rfl

theorem sendLive (o : Options) (s : Subscriber) (frame : LiveFrame) (bytes : Nat)
    (replacement : Bool) : Plain s (sendLive o s frame bytes replacement) := by
  rcases sendLive_shape o s frame bytes replacement with hs | ⟨_, hs⟩
  · rw [hs]; exact .refl s
  · rw [hs]; exact .of_eq rfl rfl rfl rfl

theorem offerLiveFrame (o : Options) (s : Subscriber) (frame : LiveFrame) (replacement : Bool) :
    Plain s (offerLiveFrame o s frame replacement) := by
  have hoffered : Plain s { s with offeredLive := s.offeredLive ++ [frame] } :=
    .of_eq rfl rfl rfl rfl
  unfold Realtime.offerLiveFrame
  dsimp only
  split
  · exact hoffered.trans (.sendLive o _ _ _ _)
  · split
    · exact hoffered
    · exact .of_eq rfl rfl rfl rfl

theorem offerLiveFrames (o : Options) (s : Subscriber) (frames : List LiveFrame) :
    Plain s (frames.foldl (fun s frame => Realtime.offerLiveFrame o s frame true) s) := by
  induction frames generalizing s with
  | nil => exact .refl s
  | cons frame frames ih => exact (offerLiveFrame o s frame true).trans (ih _)

theorem releaseLive (o : Options) (s : Subscriber) : Plain s (releaseLive o s) := by
  have hone : ∀ t entry, Plain t (releaseOne o t entry) := by
    intro t entry
    unfold releaseOne
    split
    · exact .sendLive o t _ _ _
    · exact .of_eq rfl rfl rfl rfl
  have hall : ∀ (entries : List HeldFrame) t, Plain t (entries.foldl (releaseOne o) t) := by
    intro entries
    induction entries with
    | nil => exact fun t => .refl t
    | cons entry entries ih => exact fun t => (hone t entry).trans (ih _)
  refine Plain.trans ?_ (hall s.pendingLive _)
  exact .of_eq rfl rfl rfl rfl

theorem scheduleGapFill (s : Subscriber) : Plain s (scheduleGapFill s) := by
  unfold Realtime.scheduleGapFill
  split
  · exact .of_eq rfl rfl rfl rfl
  · split
    · exact .refl s
    · exact .of_eq rfl rfl rfl rfl

theorem drain (o : Options) (s : Subscriber) : Plain s (drain o s) := by
  unfold Realtime.drain
  split
  · exact .refl s
  · have htake : Plain s (takeContiguous s).1 := .takeContiguousLoop _ s []
    have hsend : Plain s (if (takeContiguous s).2 = [] then (takeContiguous s).1
        else Realtime.sendEvents o (takeContiguous s).1 (takeContiguous s).2) := by
      split
      · exact htake
      · exact htake.trans (.sendEvents o _ _)
    exact (hsend.trans (.releaseLive o _)).trans (.scheduleGapFill _)

/-! ## Offers -/

theorem offer (o : Options) (s : Subscriber) (event : AgentEvent) : Plain s (offer o s event) := by
  unfold Realtime.offer
  split
  · exact .refl s
  · split
    · split
      · exact .resync s _
      · exact .of_eq rfl rfl rfl rfl
    · have hhold := Plain.hold o s event
      split
      · rename_i t hs
        rw [hs] at hhold
        exact hhold.trans (.drain o t)
      · rename_i t hs
        rw [hs] at hhold
        exact hhold

theorem enqueueMessage (o : Options) (s : Subscriber) (message : QueuedMessage) :
    Plain s (enqueueMessage o s message) := by
  unfold Realtime.enqueueMessage
  split
  · split
    · exact .of_eq rfl rfl rfl rfl
    · split
      · exact .resync s _
      · exact .of_eq rfl rfl rfl rfl
    · exact .refl s
  · exact .of_eq rfl rfl rfl rfl
  · exact .refl s

/-! ## Synchronizing -/

theorem syncMessages (hplace : o.placeEvents = true) (hsync : s.sync ≠ .ended)
    {messages : List HostMessage} (cursor : Nat)
    (hm : PlainMessages messages) : Plain s (syncMessages o s messages cursor) := by
  unfold Realtime.syncMessages
  split
  · have hwaits : Plain s { s with sync := .viewerSnapshot } := .waits _ hsync no_messages
    exact hwaits.trans (.of_eq rfl rfl rfl rfl)
  · rename_i first rest
    obtain ⟨hfirst, hrest⟩ := List.forall_mem_cons.mp hm
    have hwaits : Plain s { s with sync := .messages rest cursor } := .waits _ hsync hrest
    exact hwaits.trans (.send hplace hfirst)

theorem replayLoop (hplace : o.placeEvents = true) (hsync : s.sync ≠ .ended)
    {messages : List HostMessage} (cursor head bytes events : Nat) (hm : PlainMessages messages) :
    Plain s (replayLoop o s cursor head bytes events messages) := by
  unfold Realtime.replayLoop
  split
  · exact .waits _ hsync hm
  · exact .syncMessages hplace hsync cursor hm

theorem closeEnded (s : Subscriber) : Plain s (Realtime.close { s with sync := .ended }) :=
  (ends s).trans (.close _)

theorem resyncEnded (s : Subscriber) (reason : ResyncReason) :
    Plain s { Realtime.resync s reason with sync := .ended } := (resync s reason).trans (.ends _)

theorem replayWindow (hplace : o.placeEvents = true) (hsync : s.sync ≠ .ended)
    {messages : List HostMessage} (cursor head bytes events : Nat) (hm : PlainMessages messages) (window : Window) :
    Plain s (replayWindow o s cursor head bytes events messages window) := by
  unfold Realtime.replayWindow
  dsimp only
  split
  · exact .resyncEnded s _
  · split
    · exact .resyncEnded s _
    · split
      · exact .closeEnded s
      · rename_i batches hbatches
        split
        · exact .resyncEnded s _
        · refine .replayLoop hplace hsync _ _ _ _ (List.forall_mem_append.mpr ⟨hm, fun m hb => ?_⟩)
          obtain ⟨batch, -, rfl⟩ := List.mem_map.mp hb
          rfl

/-! ## Filling gaps -/

theorem endFill (o : Options) (s : Subscriber) :
    Plain s (Realtime.drain o { discardDelivered s with filling := none }) := by
  refine Plain.trans ?_ (.drain o _)
  exact .of_eq rfl rfl rfl rfl

theorem fillLoop (o : Options) (s : Subscriber) (through : Nat) :
    Plain s (fillLoop o s through) := by
  unfold Realtime.fillLoop
  split
  · exact .of_eq rfl rfl rfl rfl
  · exact .endFill o s

theorem fillGap (o : Options) (s : Subscriber) : Plain s (fillGap o s) := by
  unfold Realtime.fillGap
  split
  · exact .refl s
  · split
    · exact .refl s
    · exact .fillLoop o s _

theorem fillWindow (o : Options) (s : Subscriber) (fill : Fill) (window : Window) :
    Plain s (fillWindow o s fill window) := by
  have hfresh : Plain s (queueFresh o s fill window) := by
    unfold queueFresh
    dsimp only
    split
    · exact .refl s
    · exact (sendEvents o s _).trans (.of_eq rfl rfl rfl rfl)
  have hmove : ∀ q, Plain s { queueFresh o s fill window with queuedThrough := q } := fun q =>
    hfresh.trans (.of_eq rfl rfl rfl rfl)
  unfold Realtime.fillWindow
  dsimp only
  split
  · exact (hmove _).trans (.endFill o _)
  · split
    · exact ((hmove _).trans (.resync _ _)).trans (.of_eq rfl rfl rfl rfl)
    · exact (hmove _).trans (.fillLoop o _ _)

/-! ## Jobs -/

theorem jobSend (hplace : o.placeEvents = true) (sendTail : List Job) {m : HostMessage}
    (hm : isPlain (.send m) = true) : Plain s (Realtime.send o { s with sendTail } m) := by
  refine Plain.trans ?_ (.send hplace hm)
  exact .of_eq rfl rfl rfl rfl

theorem finishJob (o : Options) (s : Subscriber) (body : JobBody) (rest : List Job) :
    Plain s (finishJob o s body rest) := by
  unfold Realtime.finishJob
  split
  · exact .of_eq rfl rfl rfl rfl
  · exact .of_eq rfl rfl rfl rfl
  · exact .of_eq rfl rfl rfl rfl

theorem jobSendRejects (s : Subscriber) (body : JobBody) (rest : List Job) :
    Plain s (jobSendRejects s body rest) := by
  have hsettle : Plain s { s with sendTail := ⟨body, .settled⟩ :: rest } :=
    .of_eq rfl rfl rfl rfl
  unfold Realtime.jobSendRejects
  dsimp only
  split
  · exact hsettle.trans (.close _)
  · exact hsettle.trans (.failDelivery _)

end Plain

/-! ## The steps that are not plain -/

/-- A job hands over no progress, or it is progress and goes out as it is. -/
theorem startJob_cases (hplace : o.placeEvents = true) (s : Subscriber) (body : JobBody)
    (rest : List Job) :
    Plain s (startJob o s body rest) ∨
    ∃ frame bytes, s.state = .live ∧ startJob o s body rest =
      { s with
        sendTail := ⟨.live frame bytes, .sending []⟩ :: rest
        sink := s.sink ++ [SinkCall.send (.live frame frame.afterSequence)] } := by
  have hsettle : Plain s { s with sendTail := ⟨body, .settled⟩ :: rest } :=
    .of_eq rfl rfl rfl rfl
  cases body with
  | events events =>
    refine .inl ?_
    unfold startJob
    dsimp only
    split
    · exact hsettle
    · split
      · exact hsettle.trans (.failDelivery _)
      · exact hsettle
      · exact .jobSend hplace _ rfl
  | synchronized => exact .inl hsettle
  | live frame bytes =>
    by_cases hlive : s.state = .live
    · refine .inr ⟨frame, bytes, hlive, ?_⟩
      simp only [startJob, jobSends, if_pos hlive, send, hplace, if_true, sinkSend]
    · simp only [startJob, jobSends, if_neg hlive]
      exact .inl hsettle
  | message message =>
    by_cases hlive : s.state = .live
    · simp only [startJob, jobSends, if_pos hlive]
      exact .inl (.jobSend hplace _ rfl)
    · simp only [startJob, jobSends, if_neg hlive]
      exact .inl hsettle

/-- The fields that say where a synchronizing subscriber is. -/
def place (s : Subscriber) := (s.start, s.sync, s.state, s.queuedThrough, s.sink)

theorem hold_place (o : Options) (s : Subscriber) (event : AgentEvent)
    (h : (hold o s event).2 = true) : place (hold o s event).1 = place s := by
  rcases hold_shape o s event with ⟨hs, -⟩ | ⟨_, _, hs⟩ | ⟨reason, hs⟩
  · rw [hs]
  · rw [hs]; rfl
  · rw [hs] at h; cases h

theorem holdBuffered_place (events : List AgentEvent) (s : Subscriber)
    (h : (holdBuffered o s events).2 = true) : place (holdBuffered o s events).1 = place s := by
  induction events generalizing s with
  | nil => rfl
  | cons event rest ih =>
    unfold holdBuffered at h ⊢
    split at h
    · rename_i hnew
      rw [if_pos hnew]
      have hheld := hold_place o s event
      cases hh : hold o s event with
      | mk t kept =>
        rw [hh] at h hheld
        cases kept with
        | true => exact (ih t h).trans (hheld rfl)
        | false => cases h
    · rename_i hold
      rw [if_neg hold]
      exact ih s h

theorem Plain.holdBuffered (o : Options) (events : List AgentEvent) (s : Subscriber) :
    Plain s (holdBuffered o s events).1 := by
  induction events generalizing s with
  | nil => exact .refl s
  | cons event rest ih =>
    unfold Realtime.holdBuffered
    split
    · have hheld := Plain.hold o s event
      split
      · rename_i t hs
        rw [hs] at hheld
        exact hheld.trans (ih t)
      · rename_i t hs
        rw [hs] at hheld
        exact hheld
    · exact ih s

theorem takeContiguousLoop_sync (fuel : Nat) (s : Subscriber) (batch : List AgentEvent) :
    (takeContiguousLoop fuel s batch).1.sync = s.sync := by
  induction fuel generalizing s batch with
  | zero => rfl
  | succ fuel ih =>
    unfold takeContiguousLoop
    split
    · rfl
    · exact ih _ _

theorem length_takeContiguousLoop (fuel : Nat) (s : Subscriber) (batch : List AgentEvent) :
    batch.length ≤ (takeContiguousLoop fuel s batch).2.length := by
  induction fuel generalizing s batch with
  | zero => exact Nat.le_refl _
  | succ fuel ih =>
    unfold takeContiguousLoop
    split
    · exact Nat.le_refl _
    · exact Nat.le_trans (by simp) (ih _ _)

/-- Where nothing continues the stream, the subscriber stays where it is. -/
theorem takeContiguous_nil (h : (takeContiguous s).2 = []) : (takeContiguous s).1 = s := by
  unfold takeContiguous at h ⊢
  cases hlen : s.pending.length with
  | zero => rfl
  | succ fuel =>
    rw [hlen] at h
    unfold takeContiguousLoop at h ⊢
    split at h
    · rfl
    · rename_i held hfind
      have := length_takeContiguousLoop fuel
        { s with
          pending := s.pending.filter fun h => h.event.sequence ≠ s.queuedThrough + 1
          pendingBytes := s.pendingBytes - held.bytes
          queuedThrough := s.queuedThrough + 1 }
        ([] ++ [held.event])
      rw [h] at this
      simp at this

theorem syncQuiet_cases (hplace : o.placeEvents = true) (hsync : s.sync ≠ .ended)
    (liveFrames : List LiveFrame) :
    Plain s (syncQuiet o s liveFrames) ∨ syncQuiet o s liveFrames = goLive o s liveFrames := by
  unfold syncQuiet
  split
  · rename_i notice rest hnotices
    have hnotices : ∀ notices,
        Plain s { s with syncNotices := rest, sync := .notices notices } := fun notices =>
      Plain.trans (.waits (.notices notices) hsync no_messages) (.of_eq rfl rfl rfl rfl)
    refine .inl ?_
    split
    · exact hnotices []
    · exact (hnotices _).trans (.send hplace rfl)
  · split
    · rename_i message rest hmessages
      have hwaits : Plain s { s with
          syncViewerMessages := rest
          viewerBufferedBytes := s.viewerBufferedBytes - viewerBytes message
          sync := .viewerMessage } :=
        Plain.trans (.waits .viewerMessage hsync no_messages) (.of_eq rfl rfl rfl rfl)
      exact .inl (hwaits.trans (.send hplace rfl))
    · exact .inr rfl

/-- `synchronize` goes on by plain calls, or goes live where it is. -/
theorem syncLoop_cases (hplace : o.placeEvents = true) (hsync : s.sync ≠ .ended)
    (liveFrames : List LiveFrame) :
    Plain s (syncLoop o s liveFrames) ∨ s.state = .synchronizing ∧
      ∃ u, place u = place s ∧ syncLoop o s liveFrames = goLive o u liveFrames := by
  unfold syncLoop
  split
  · exact .inl (.ends s)
  · rename_i hstate
    have hcleared : Plain s { s with syncBuffer := [] } := .of_eq rfl rfl rfl rfl
    have hheld := Plain.holdBuffered o s.syncBuffer { s with syncBuffer := [] }
    have hplaced := holdBuffered_place (o := o) s.syncBuffer { s with syncBuffer := [] }
    split
    · rename_i t hs
      rw [hs] at hheld
      exact .inl ((hcleared.trans hheld).trans (.ends t))
    · rename_i t hs
      rw [hs] at hheld hplaced
      have hplaced : place { t with syncBufferedBytes := 0 } = place s := hplaced rfl
      have ht : t.sync ≠ .ended := by
        have he : t.sync = s.sync := congrArg (fun p => p.2.1) hplaced
        rwa [he]
      have hcount : Plain s { t with syncBufferedBytes := 0 } :=
        (hcleared.trans hheld).trans (.of_eq rfl rfl rfl rfl)
      have htake : Plain s (takeContiguous { t with syncBufferedBytes := 0 }).1 :=
        hcount.trans (.takeContiguousLoop t.pending.length _ [])
      have hwait : (takeContiguous { t with syncBufferedBytes := 0 }).1.sync ≠ .ended := by
        unfold takeContiguous
        rw [takeContiguousLoop_sync]
        exact ht
      have hnil := takeContiguous_nil (s := { t with syncBufferedBytes := 0 })
      dsimp only
      split
      · rename_i hbatch
        rw [hnil hbatch]
        rcases syncQuiet_cases hplace ht liveFrames (s := { t with syncBufferedBytes := 0 })
          with hq | hq
        · exact .inl (hcount.trans hq)
        · exact .inr ⟨by simpa using hstate, { t with syncBufferedBytes := 0 }, hplaced, hq⟩
      · refine .inl ?_
        split
        · exact htake.trans (.closeEnded _)
        · exact htake.trans (.waits (.batches []) hwait no_messages)
        · rename_i first rest hbatches
          exact (htake.trans (.waits (.batches rest) hwait no_messages)).trans (.send hplace rfl)

/-! ## The invariant -/

/-- What a subscriber that is sent all hands over before and after it is
synchronized. -/
structure Synced (log : List AgentEvent) (s : Subscriber) : Prop where
  before : s.sync ≠ .ended → ∀ call ∈ s.sink, isPlain call = true
  unsent : PlainMessages (unsentMessages s.sync)
  live : s.state = .live → ∃ q, .send (.synchronized q) ∈ s.sink
  synchronized : ∀ (pre : List SinkCall) q post, s.sink = pre ++ SinkCall.send (.synchronized q) :: post →
    (∀ call ∈ pre, isPlain call = true) ∧ s.start ≤ q ∧
      CourseItem.events (handed pre) = between AgentEvent.sequence log s.start q
  progress : ∀ (pre : List SinkCall) frame a post, s.sink = pre ++ SinkCall.send (.live frame a) :: post →
    a = frame.afterSequence ∧ ∃ q, .send (.synchronized q) ∈ pre

theorem synced_initial (log : List AgentEvent) (n : Nat) : Synced log (.initial n) where
  before _ := by simp [Subscriber.initial]
  unsent := no_messages
  live h := by cases h
  synchronized pre q post h := by simp [Subscriber.initial] at h
  progress pre frame a post h := by simp [Subscriber.initial] at h

/-- A call that is not plain is none of those added. -/
theorem append_eq_of_plain {sink calls pre post : List SinkCall} {call : SinkCall}
    (hcalls : ∀ call ∈ calls, isPlain call = true) (hcall : isPlain call = false)
    (he : sink ++ calls = pre ++ call :: post) : ∃ rest, sink = pre ++ call :: rest := by
  rcases List.append_eq_append_iff.mp he with ⟨more, rfl, hc⟩ | ⟨more, rfl, hc⟩
  · have := hcalls call (by rw [hc]; simp)
    rw [hcall] at this
    cases this
  · cases more with
    | nil =>
      have hc : call :: post = calls := hc
      have := hcalls call (by rw [← hc]; simp)
      rw [hcall] at this
      cases this
    | cons c more =>
      obtain ⟨rfl, -⟩ := List.cons_eq_cons.mp hc
      exact ⟨more, rfl⟩

/-- What stands in a list with one member more is that one, or stands in the list. -/
theorem append_singleton_eq {α : Type*} {l pre post : List α} {a b : α}
    (h : l ++ [a] = pre ++ b :: post) : l = pre ∧ a = b ∨ ∃ rest, l = pre ++ b :: rest := by
  rcases List.append_eq_append_iff.mp h with ⟨more, rfl, hc⟩ | ⟨more, hl, hc⟩
  · cases more with
    | nil => exact .inl ⟨(List.append_nil l).symm, (List.cons_eq_cons.mp hc).1⟩
    | cons c more => simp at hc
  · cases more with
    | nil => exact .inl ⟨hl.trans (List.append_nil pre), (List.cons_eq_cons.mp hc).1.symm⟩
    | cons c more =>
      obtain ⟨rfl, -⟩ := List.cons_eq_cons.mp hc
      exact .inr ⟨more, hl⟩

theorem Synced.of_plain (h : Synced log s) (hp : Plain s s') : Synced log s' := by
  obtain ⟨calls, hsink, hcalls⟩ := hp.sink
  refine ⟨fun hs => ?_, hp.unsent h.unsent, fun hl => ?_, fun pre q post he => ?_,
    fun pre frame a post he => ?_⟩
  · rw [hsink]
    exact List.forall_mem_append.mpr ⟨h.before fun hn => hs (hp.ended hn), hcalls⟩
  · obtain ⟨q, hq⟩ := h.live (hp.live hl)
    exact ⟨q, hsink ▸ List.mem_append_left _ hq⟩
  · obtain ⟨rest, hrest⟩ := append_eq_of_plain hcalls rfl (hsink ▸ he)
    exact hp.start ▸ h.synchronized pre q rest hrest
  · obtain ⟨rest, hrest⟩ := append_eq_of_plain hcalls rfl (hsink ▸ he)
    exact h.progress pre frame a rest hrest

/-- The start moves while nothing but plain calls has been made. -/
theorem Synced.restart (h : Synced log s) (hended : s.sync ≠ .ended) (n : Nat) :
    Synced log { s with start := n } where
  before := h.before
  unsent := h.unsent
  live := h.live
  synchronized pre q post he := by
    have := h.before hended (.send (.synchronized q)) (he ▸ by simp)
    cases this
  progress := h.progress

/-- It goes live having handed over what the log has up to where it is. -/
theorem Synced.goLive (hplace : o.placeEvents = true) (h : Synced log s)
    (hended : s.sync ≠ .ended) (hstart : s.start ≤ s.queuedThrough)
    (hexact : CourseItem.events (handed s.sink) =
      between AgentEvent.sequence log s.start s.queuedThrough)
    (liveFrames : List LiveFrame) : Synced log (goLive o s liveFrames) := by
  let t : Subscriber := { s with
    sendTail := [⟨.synchronized, .sending []⟩], state := .live, sync := .ended
    sink := s.sink ++ [SinkCall.send (.synchronized s.queuedThrough)] }
  have hbefore := h.before hended
  have ht : Synced log t := by
    refine ⟨fun hs => absurd rfl hs, no_messages,
      fun _ => ⟨s.queuedThrough, List.mem_append_right _ (List.mem_singleton_self _)⟩,
      fun pre q post he => ?_, fun pre frame a post he => ?_⟩
    · -- Every call before it is plain, so it is the last.
      rcases append_singleton_eq he with ⟨rfl, hq⟩ | ⟨rest, hs⟩
      · cases hq
        exact ⟨hbefore, hstart, hexact⟩
      · have := hbefore (.send (.synchronized q)) (by rw [hs]; simp)
        cases this
    · have hmem : .send (.live frame a) ∈ t.sink := he ▸ by simp
      rcases List.mem_append.mp hmem with hm | hm
      · cases hbefore _ hm
      · cases List.mem_singleton.mp hm
  have hgo : Realtime.goLive o s liveFrames =
      drain o (liveFrames.foldl (fun s frame => offerLiveFrame o s frame true) t) := by
    simp only [Realtime.goLive, send, hplace, if_true, sinkSend, t]
  rw [hgo]
  exact ht.of_plain ((Plain.offerLiveFrames o t liveFrames).trans (.drain o _))

/-- Before it is synchronized, an open subscriber with nothing to send has handed
over what the log has up to where it is. -/
theorem exact_of_idle (hplace : o.placeEvents = true) (side : Side log s)
    (hok : (course o s).Ok AgentEvent.sequence LiveFrame.afterSequence log (isVisible o))
    (hidle : SyncIdle s.sync) (hopen : s.state ≠ .closed) :
    s.start ≤ s.queuedThrough ∧ CourseItem.events (handed s.sink) =
      between AgentEvent.sequence log s.start s.queuedThrough := by
  obtain ⟨hitems, hended, -, hthrough⟩ := hidle.facts
  obtain ⟨htail, -, -⟩ := side.presync hended
  have hthrough := hthrough s rfl
  have hintact : (course o s).intact = true := by simp [course, hopen]
  have hall : ∀ events : List AgentEvent, events.filter (isVisible o) = events := fun events =>
    List.filter_eq_self.mpr fun event _ => isVisible_of_placeEvents hplace event
  constructor
  · have := hok.start_le hintact
    simpa only [course, hthrough] using this
  · have := hok.exact hintact
    simpa [course, outgoing, hitems, htail, tailItems, runningItems, hthrough, hall] using this

theorem Synced.syncLoop (hplace : o.placeEvents = true) (side : Side log s)
    (hok : (course o s).Ok AgentEvent.sequence LiveFrame.afterSequence log (isVisible o))
    (h : Synced log s) (hidle : SyncIdle s.sync) (liveFrames : List LiveFrame) :
    Synced log (Realtime.syncLoop o s liveFrames) := by
  obtain ⟨-, hended, -, -⟩ := hidle.facts
  rcases syncLoop_cases hplace hended liveFrames with hp | ⟨hstate, u, hu, he⟩
  · exact h.of_plain hp
  · obtain ⟨hstart, hexact⟩ := exact_of_idle hplace side hok hidle (by simp [hstate])
    simp only [place, Prod.mk.injEq] at hu
    obtain ⟨h₁, h₂, h₃, h₄, h₅⟩ := hu
    rw [he]
    have hsynced : Synced log u := by
      refine h.of_plain ⟨⟨[], by simp [h₅], by simp⟩, h₁, fun hl => h₃ ▸ hl, fun hs => h₂ ▸ hs,
        fun hm => h₂ ▸ hm⟩
    exact hsynced.goLive hplace (h₂ ▸ hended) (by rw [h₁, h₄]; exact hstart)
      (by rw [h₅, h₁, h₄]; exact hexact) liveFrames

/-- Progress is handed over as it is, by a subscriber that is live. -/
theorem Synced.startJob (hplace : o.placeEvents = true) (h : Synced log s) (hended : s.sync = .ended)
    (body : JobBody) (rest : List Job) : Synced log (Realtime.startJob o s body rest) := by
  rcases startJob_cases hplace s body rest with hp | ⟨frame, bytes, hlive, he⟩
  · exact h.of_plain hp
  · rw [he]
    refine ⟨fun hs => absurd hended hs, h.unsent, fun _ => ?_, fun pre q post hs => ?_,
      fun pre f a post hs => ?_⟩
    · obtain ⟨q, hq⟩ := h.live hlive
      exact ⟨q, List.mem_append_left _ hq⟩
    · rcases append_singleton_eq hs with ⟨-, hq⟩ | ⟨rest, hpre⟩
      · cases hq
      · exact h.synchronized pre q rest hpre
    · rcases append_singleton_eq hs with ⟨rfl, hq⟩ | ⟨rest, hpre⟩
      · cases hq
        exact ⟨rfl, h.live hlive⟩
      · exact h.progress pre f a rest hpre

theorem Synced.syncSendResolves (hplace : o.placeEvents = true) (side : Side log s)
    (hok : (course o s).Ok AgentEvent.sequence LiveFrame.afterSequence log (isVisible o))
    (h : Synced log s) {liveFrames : List LiveFrame}
    (hs : syncSendResolves o s liveFrames = some s') : Synced log s' := by
  unfold Realtime.syncSendResolves at hs
  split at hs
  · rename_i rest cursor hsync
    cases hs
    refine h.of_plain (.syncMessages hplace (by simp [hsync]) cursor ?_)
    have := h.unsent
    rwa [hsync] at this
  · rename_i next rest hsync
    cases hs
    exact h.of_plain
      ((Plain.waits (.batches rest) (by simp [hsync]) no_messages).trans (.send hplace rfl))
  · rename_i next rest hsync
    cases hs
    exact h.of_plain
      ((Plain.waits (.notices rest) (by simp [hsync]) no_messages).trans (.send hplace rfl))
  · rename_i hsync
    cases hs
    exact h.syncLoop hplace side hok (by rw [hsync]; trivial) _
  · rename_i hsync
    cases hs
    exact h.syncLoop hplace side hok (by rw [hsync]; trivial) _
  · rename_i hsync
    cases hs
    exact h.syncLoop hplace side hok (by rw [hsync]; trivial) _
  · cases hs

theorem synced_step (hplace : o.placeEvents = true) (side : Side log s)
    (hok : (course o s).Ok AgentEvent.sequence LiveFrame.afterSequence log (isVisible o))
    (h : Synced log s) {a : Action} (hs : step o s a = some s') : Synced log s' := by
  cases a with
  | membershipResolves isActive =>
    simp only [step] at hs
    split at hs <;> cases hs
    rename_i hsync
    cases isActive with
    | false => exact h.of_plain (.closeEnded s)
    | true =>
      refine h.of_plain (.waits _ (by simp [hsync]) ?_)
      split <;> exact no_messages
  | snapshotResolves sequence =>
    simp only [step] at hs
    split at hs <;> cases hs
    rename_i hsync
    have hended : s.sync ≠ .ended := by simp [hsync]
    have hm : PlainMessages [.snapshot sequence] := by simp [PlainMessages, isPlain]
    exact (h.restart hended sequence).of_plain
      (.syncMessages (s := { s with start := sequence }) hplace hended sequence hm)
  | headResolves head =>
    simp only [step] at hs
    split at hs <;> cases hs
    rename_i hsync
    split
    · exact h.of_plain (.resyncEnded s _)
    · exact h.of_plain (.replayLoop hplace (by simp [hsync]) _ _ _ _ no_messages)
  | replayResolves window =>
    simp only [step] at hs
    split at hs
    · rename_i cursor head replayBytes replayEvents messages hsync
      cases hs
      have hm := h.unsent
      rw [hsync] at hm
      exact h.of_plain (.replayWindow hplace (by simp [hsync]) _ _ _ _ hm window)
    · cases hs
  | subscribeRejects =>
    simp only [step] at hs
    split at hs <;> cases hs
    exact h.of_plain (.closeEnded s)
  | syncSendResolves liveFrames => exact h.syncSendResolves hplace side hok hs
  | syncSendRejects =>
    simp only [step] at hs
    split at hs <;> cases hs
    exact h.of_plain (.closeEnded s)
  | viewerSnapshotSends message =>
    simp only [step] at hs
    split at hs <;> cases hs
    exact h.of_plain (.call rfl)
  | viewerSnapshotResolves liveFrames =>
    simp only [step] at hs
    split at hs <;> cases hs
    rename_i hsync
    exact h.syncLoop hplace side hok (by rw [hsync]; trivial) _
  | offer event => cases hs; exact h.of_plain (.offer o s event)
  | offerLive frame =>
    cases hs
    unfold offerLive
    split
    · exact h
    · exact h.of_plain (.offerLiveFrame o s _ _)
  | enqueueMessage message => cases hs; exact h.of_plain (.enqueueMessage o s message)
  | resync reason => cases hs; exact h.of_plain (.resync s reason)
  | close => cases hs; exact h.of_plain (.close s)
  | gapTimerFires =>
    simp only [step] at hs
    split at hs <;> cases hs
    refine h.of_plain (Plain.trans ?_ (.fillGap o _))
    exact .of_eq rfl rfl rfl rfl
  | fillResolves window =>
    simp only [step] at hs
    split at hs
    · cases hs
      exact h.of_plain (.fillWindow o s _ window)
    · cases hs
  | fillRejects =>
    simp only [step] at hs
    split at hs <;> cases hs
    exact h.of_plain ((Plain.resync s _).trans (.of_eq rfl rfl rfl rfl))
  | jobStarts =>
    simp only [step] at hs
    split at hs
    · rename_i body rest htail
      cases hs
      exact h.startJob hplace (sync_ended_of_tail side htail) body rest
    · cases hs
  | jobSendResolves =>
    simp only [step] at hs
    split at hs
    · cases hs
      exact h.of_plain (.of_eq rfl rfl rfl rfl)
    · cases hs
      exact h.of_plain (.jobSend hplace _ rfl)
    · cases hs
  | jobSendRejects =>
    simp only [step] at hs
    split at hs
    · cases hs
      exact h.of_plain (.jobSendRejects s _ _)
    · cases hs
  | jobFinishes =>
    simp only [step] at hs
    split at hs
    · cases hs
      exact h.of_plain (.finishJob o s _ _)
    · cases hs
  | resyncSettles =>
    simp only [step] at hs
    split at hs <;> cases hs
    refine h.of_plain (Plain.trans ?_ (.call (s := { s with resyncing := false }) rfl))
    exact .of_eq rfl rfl rfl rfl

/-- What holds of a subscriber that is sent all, after any run. -/
theorem synced {n : Nat} {as : List Action} (hplace : o.placeEvents = true)
    (hlog : Ascending AgentEvent.sequence log)
    (hmeets : (machine o).Meets (Legal log) (.initial n) as)
    (hrun : (machine o).run (.initial n) as = some s) : Delivered o log as s ∧ Synced log s := by
  refine ⟨delivered hlog hmeets hrun, ?_⟩
  have hpair := (machine o).run_invariant
    (P := fun s => (Side log s ∧ (course o s).Ok AgentEvent.sequence LiveFrame.afterSequence log
      (isVisible o)) ∧ Synced log s) ?_ (fun s a t h hlegal hs => ?_) hmeets hrun
  · exact hpair.2
  · exact ⟨⟨side_initial log n, .initial n⟩, synced_initial log n⟩
  · have hf := follows_step hlog h.1.1 hlegal hs
    exact ⟨⟨hf.side, h.1.2.of_steps hlog hf.steps⟩, synced_step hplace h.1.1 h.1.2 h.2 hs⟩

end Opensteer.Realtime
