import Opensteer.Realtime.Shapes

/-!
# The course of a subscriber

What the sink has been handed, with what waits to be sent, is a course through
the Workspace's log (`course`), and each function of the subscriber takes steps
of it (`Follows`): it takes the next part of the log, adds progress that follows
no more than has been taken, or cuts the course when the subscriber closes.
`Follows` also says that no event offered to an open subscriber is lost, and
that one which closes for any reason but a fault of its sink has been told to
resync.
-/

namespace Opensteer.Realtime

variable {o : Options} {s s' : Subscriber} {log : List AgentEvent} {F : Prop}

/-! ## What waits to be sent -/

def jobItems : Job → List (CourseItem AgentEvent LiveFrame)
  | ⟨.events events, .waiting⟩ => events.map .event
  | ⟨.live frame _, .waiting⟩ => [.note frame]
  | ⟨_, .waiting⟩ => []
  | ⟨_, .sending rest⟩ => rest.flatten.map .event
  | ⟨_, .settled⟩ => []

def tailItems (tail : List Job) : List (CourseItem AgentEvent LiveFrame) := tail.flatMap jobItems

/-- What a closed subscriber still sends: the rest of the job that has begun. -/
def runningItems : List Job → List (CourseItem AgentEvent LiveFrame)
  | ⟨_, .sending rest⟩ :: _ => rest.flatten.map .event
  | _ => []

def syncItems : SyncPhase → List (CourseItem AgentEvent LiveFrame)
  | .replay _ _ _ _ messages => messages.flatMap messageItems
  | .messages rest _ => rest.flatMap messageItems
  | .batches rest => rest.flatten.map .event
  | _ => []

def outgoing (s : Subscriber) : List (CourseItem AgentEvent LiveFrame) :=
  syncItems s.sync ++ if s.state = .closed then runningItems s.sendTail else tailItems s.sendTail

/-- Where what is handed and outgoing ends. -/
def through (s : Subscriber) : Nat :=
  match s.sync with
  | .membership | .snapshot | .head => s.start
  | .replay cursor .. => cursor
  | .messages _ cursor => cursor
  | _ => s.queuedThrough

def course (o : Options) (s : Subscriber) : Course AgentEvent LiveFrame where
  start := s.start
  through := through s
  intact := !(s.state = .closed && s.sync = .ended)
  items := handed s.sink ++ (outgoing s).filter (isShown o)

theorem runningItems_prefix (tail : List Job) : runningItems tail <+: tailItems tail := by
  cases tail with
  | nil => exact List.prefix_rfl
  | cons job rest =>
    obtain ⟨body, phase⟩ := job
    cases phase with
    | waiting => exact List.nil_prefix
    | sending batches => exact ⟨tailItems rest, by cases body <;> rfl⟩
    | settled => exact List.nil_prefix

theorem runningItems_append {tail : List Job} {body : JobBody} :
    runningItems (tail ++ [⟨body, .waiting⟩]) = runningItems tail := by
  cases tail with
  | nil => rfl
  | cons job rest =>
    obtain ⟨b, phase⟩ := job
    cases phase <;> rfl

theorem tailItems_append (tail tail' : List Job) :
    tailItems (tail ++ tail') = tailItems tail ++ tailItems tail' := List.flatMap_append

/-! ## Steps of the course -/

abbrev Steps (o : Options) (log : List AgentEvent) :
    Course AgentEvent LiveFrame → Course AgentEvent LiveFrame → Prop :=
  Relation.ReflTransGen (Course.Step AgentEvent.sequence LiveFrame.afterSequence log (isVisible o))

theorem steps_cut (pre : List (CourseItem AgentEvent LiveFrame)) {n : Nat}
    (hpre : pre <+: (course o s).items)
    (he : course o s' = { course o s with items := pre, through := n, intact := false }) :
    Steps o log (course o s) (course o s') := by
  rw [he]
  exact .single (.cut hpre)

theorem steps_take {n : Nat} (hintact : (course o s).intact = true) (hn : through s ≤ n)
    (he : course o s' = { course o s with
      through := n
      items := (course o s).items ++
        ((between AgentEvent.sequence log (through s) n).filter (isVisible o)).map .event }) :
    Steps o log (course o s) (course o s') := by
  rw [he]
  exact .single (.take hintact hn)

theorem steps_note {frame : LiveFrame} (hintact : (course o s).intact = true)
    (hframe : frame.afterSequence ≤ through s)
    (he : course o s' = { course o s with items := (course o s).items ++ [CourseItem.note frame] }) :
    Steps o log (course o s) (course o s') := by
  rw [he]
  exact .single (.note hintact hframe)

theorem steps_same (he : course o s' = course o s) : Steps o log (course o s) (course o s') := by
  rw [he]

/-- What the subscriber's functions rely on, and keep. -/
structure Side (log : List AgentEvent) (s : Subscriber) : Prop where
  presync : s.sync ≠ .ended → s.sendTail = [] ∧ s.filling = none ∧ s.state ≠ .live
  syncing : s.state = .synchronizing → s.sync ≠ .ended
  waiting : ∀ job ∈ s.sendTail.tail, job.phase = .waiting
  held : ∀ held ∈ s.pending, held.event ∈ log
  buffered : ∀ event ∈ s.syncBuffer, event ∈ log
  fill : ∀ fill ∈ s.filling, fill.cursor ≤ s.queuedThrough
  unsent : s.sync = .membership ∨ s.sync = .snapshot → handed s.sink = []
  fromZero : s.sync = .snapshot → s.queuedThrough = 0
  queued_le : s.queuedThrough ≤ through s
  jobs : ∀ job ∈ s.sendTail, ∀ event, .event event ∈ jobItems job → event ∈ log

/-- The subscriber has not lost the event with the sequence `n`: it is closed,
has queued that far, or holds the event. -/
def Kept (s : Subscriber) (n : Nat) : Prop :=
  s.state = .closed ∨ n ≤ s.queuedThrough ∨
    (∃ held ∈ s.pending, held.event.sequence = n) ∨ ∃ event ∈ s.syncBuffer, event.sequence = n

/-- `s'` comes of `s` by steps of its course, losing no event, and closes only
with a resync or by `F`. -/
structure Follows (o : Options) (log : List AgentEvent) (F : Prop) (s s' : Subscriber) :
    Prop where
  side : Side log s'
  steps : Steps o log (course o s) (course o s')
  keeps : ∀ n, Kept s n → Kept s' n
  ended : s.sync = .ended → s'.sync = .ended
  sent : s.sink <+: s'.sink
  closes : s'.state = .closed → s.state = .closed ∨ Resynced s' ∨ F

theorem Resynced.mono (h : Resynced s) (hs : s.sink <+: s'.sink) : Resynced s' :=
  h.imp fun _ hr => hs.subset hr

namespace Follows

theorem refl (h : Side log s) : Follows o log F s s :=
  ⟨h, .refl, fun _ h => h, fun h => h, List.prefix_rfl, fun h => .inl h⟩

theorem trans {t u : Subscriber} (h : Follows o log F s t) (h' : Follows o log F t u) :
    Follows o log F s u where
  side := h'.side
  steps := h.steps.trans h'.steps
  keeps n hn := h'.keeps n (h.keeps n hn)
  ended hn := h'.ended (h.ended hn)
  sent := h.sent.trans h'.sent
  closes hc := by
    rcases h'.closes hc with ht | ht
    · exact (h.closes ht).imp id fun hr => hr.imp (Resynced.mono · h'.sent) id
    · exact .inr ht

/-- What neither changes the course nor drops an event. -/
theorem of_course (hside : Side log s') (hcourse : course o s' = course o s)
    (hkeeps : ∀ n, Kept s n → Kept s' n) (hended : s.sync = .ended → s'.sync = .ended)
    (hsent : s.sink <+: s'.sink) (hstate : s'.state = s.state) : Follows o log F s s' :=
  ⟨hside, hcourse ▸ .refl, hkeeps, hended, hsent, fun h => .inl (hstate ▸ h)⟩

end Follows

/-- The fields `course`, `Side` and `Kept` read. -/
def core (s : Subscriber) :=
  (s.start, s.sync, s.syncBuffer, s.pending, s.sendTail, s.state, s.queuedThrough, s.filling,
    s.sink)

/-- A change of other fields. -/
theorem Follows.of_core (h : Side log s) (hcore : core s' = core s) : Follows o log F s s' := by
  simp only [core, Prod.mk.injEq] at hcore
  obtain ⟨h₁, h₂, h₃, h₄, h₅, h₆, h₇, h₈, h₉⟩ := hcore
  have hthrough : through s' = through s := by simp only [through, h₂, h₁, h₇]
  refine .of_course ⟨?_, ?_, ?_, ?_, ?_, ?_, ?_, ?_, ?_, ?_⟩ ?_ (fun n hn => ?_) ?_ ?_ h₆
  · rw [h₂, h₅, h₈, h₆]; exact h.presync
  · rw [h₆, h₂]; exact h.syncing
  · rw [h₅]; exact h.waiting
  · rw [h₄]; exact h.held
  · rw [h₃]; exact h.buffered
  · rw [h₈, h₇]; exact h.fill
  · rw [h₂, h₉]; exact h.unsent
  · rw [h₂, h₇]; exact h.fromZero
  · rw [h₇, hthrough]; exact h.queued_le
  · rw [h₅]; exact h.jobs
  · simp only [course, outgoing, hthrough, h₁, h₂, h₅, h₆, h₉]
  · simpa only [Kept, h₃, h₄, h₆, h₇] using hn
  · rw [h₂]; exact id
  · rw [h₉]

/-! ## Closing -/

theorem course_items_prefix (s : Subscriber) (sink : List SinkCall)
    (hsink : handed sink = handed s.sink) :
    handed sink ++ (runningItems s.sendTail).filter (isShown o) <+: handed s.sink ++
      (if s.state = .closed then runningItems s.sendTail else tailItems s.sendTail).filter
        (isShown o) := by
  rw [hsink]
  refine (List.prefix_append_right_inj _).mpr (List.IsPrefix.filter _ ?_)
  split
  · exact List.prefix_rfl
  · exact runningItems_prefix _

/-- Closing cuts the course of a synchronized subscriber; before that it changes
nothing. -/
theorem Follows.closing (h : Side log s) (hc : Closing s s')
    (hcause : s.state = .closed ∨ Resynced s' ∨ F) : Follows o log F s s' := by
  obtain ⟨gapTimer, resyncing, sink, rfl, hprefix, hsink⟩ := hc
  refine ⟨⟨fun hs => ?_, (by simp), h.waiting, h.held, h.buffered, h.fill,
    fun hs => hsink.trans (h.unsent hs), h.fromZero, h.queued_le, h.jobs⟩, ?_, fun n _ => .inl rfl,
    fun hs => hs, hprefix, fun _ => hcause⟩
  · exact ⟨(h.presync hs).1, (h.presync hs).2.1, by simp⟩
  · by_cases hended : s.sync = .ended
    · have hpre := course_items_prefix (o := o) s sink hsink
      refine steps_cut _ (n := s.queuedThrough)
        (by simpa [course, outgoing, hended, syncItems] using hpre) ?_
      simp [course, outgoing, through, hended, syncItems]
    · have hnil := (h.presync hended).1
      refine steps_same ?_
      simp [course, outgoing, through, hended, hnil, hsink, tailItems, runningItems]

theorem Follows.resync (h : Side log s) (reason : ResyncReason) :
    Follows o log F s (resync s reason) :=
  .closing h (resync_closing s reason) ((resync_resynced s reason).imp id .inl)

/-- `subscribe` ends when the subscriber has closed. -/
theorem Follows.ends (h : Side log s) (hclosed : s.state = .closed) :
    Follows o log F s { s with sync := .ended } := by
  refine ⟨⟨fun hs => absurd rfl hs, (by simp [hclosed]), h.waiting, h.held,
    h.buffered, h.fill, by simp, by simp, Nat.le_refl _, h.jobs⟩, ?_, fun n _ => .inl hclosed,
    fun _ => rfl, List.prefix_rfl, fun _ => .inl hclosed⟩
  refine steps_cut (handed s.sink ++ (runningItems s.sendTail).filter (isShown o))
    (n := s.queuedThrough)
    ((List.prefix_append_right_inj _).mpr ?_)
    (by simp [course, outgoing, through, syncItems, hclosed])
  by_cases hended : s.sync = .ended
  · simp [outgoing, hended, syncItems, hclosed]
  · simp [(h.presync hended).1, runningItems]

theorem Follows.closeEnded (h : Side log s) (hfault : F) :
    Follows o log F s (close { s with sync := .ended }) := by
  have he : close { s with sync := .ended } = { close s with sync := .ended } := by
    unfold close; split <;> rfl
  have hc : Follows o log F s (close s) := .closing h (close_closing s) (.inr (.inr hfault))
  have hclosed : (close s).state = .closed := by
    obtain ⟨_, _, _, hs, -⟩ := close_closing s
    rw [hs]
  exact he ▸ hc.trans (.ends hc.side hclosed)

theorem resync_closed (s : Subscriber) (reason : ResyncReason) : (resync s reason).state = .closed := by
  obtain ⟨_, _, _, hs, -⟩ := resync_closing s reason
  rw [hs]

theorem Follows.resyncEnded (h : Side log s) (reason : ResyncReason) :
    Follows o log F s { Realtime.resync s reason with sync := .ended } :=
  (Follows.resync h reason).trans (.ends (Follows.resync (o := o) (F := F) h reason).side
    (resync_closed s reason))

/-! ## Jobs that are added -/

theorem waiting_append {tail : List Job} (h : ∀ job ∈ tail.tail, job.phase = .waiting)
    (body : JobBody) : ∀ job ∈ (tail ++ [(⟨body, .waiting⟩ : Job)]).tail, job.phase = .waiting := by
  cases tail with
  | nil => simp
  | cons job rest =>
    intro j hj
    rcases List.mem_append.mp hj with hj | hj
    · exact h j hj
    · rw [List.mem_singleton.mp hj]

/-- A synchronized subscriber queues what the log has up to `n`, or resyncs. -/
theorem Follows.extend (pending : List HeldEvent) (pendingBytes : Int) (h : Side log s)
    (hended : s.sync = .ended) {n : Nat}
    (hn : s.queuedThrough ≤ n) (hsub : ∀ held ∈ pending, held ∈ s.pending)
    (hrest : ∀ held ∈ s.pending, held ∈ pending ∨ held.event.sequence ≤ n) {t : Subscriber}
    (ht : (t = s ∧ between AgentEvent.sequence log s.queuedThrough n = []) ∨
      t = sendEvents o s (between AgentEvent.sequence log s.queuedThrough n)) :
    Follows o log F s { t with pending, pendingBytes, queuedThrough := n } := by
  have hkept : ∀ m, Kept s m → (s.state = .closed ∨ m ≤ n ∨
      (∃ held ∈ pending, held.event.sequence = m) ∨ ∃ event ∈ s.syncBuffer, event.sequence = m) := by
    rintro m (hc | hm | ⟨held, hh, rfl⟩ | hb)
    · exact .inl hc
    · exact .inr (.inl (hm.trans hn))
    · rcases hrest held hh with hp | hp
      · exact .inr (.inr (.inl ⟨held, hp, rfl⟩))
      · exact .inr (.inl hp)
    · exact .inr (.inr (.inr hb))
  have hstate : s.state ≠ .synchronizing := fun hs => h.syncing hs hended
  -- The tail the subscriber is left with, when it does not resync.
  have hopen : ∀ tail queuedEvents queuedBytes, tail.tail.Forall (fun job => job.phase = .waiting) →
      runningItems tail = runningItems s.sendTail →
      tailItems tail = tailItems s.sendTail ++
        (between AgentEvent.sequence log s.queuedThrough n).map .event →
      (∀ job ∈ tail, ∀ event, .event event ∈ jobItems job → event ∈ log) →
      Follows o log F s { s with
        queuedEvents, queuedBytes, sendTail := tail, pending, pendingBytes, queuedThrough := n } := by
    intro tail queuedEvents queuedBytes hwaiting hrun htail hjobs
    refine ⟨⟨fun hs => absurd hended hs, fun hs => absurd hs hstate,
      List.forall_iff_forall_mem.mp hwaiting, fun held hh => h.held held (hsub held hh), h.buffered,
      fun fill hf => (h.fill fill hf).trans hn, h.unsent, by simp [hended],
      by simp [through, hended], hjobs⟩, ?_, hkept, id, List.prefix_rfl, fun hc => .inl hc⟩
    by_cases hc : s.state = .closed
    · refine steps_cut _ (n := n) List.prefix_rfl ?_
      simp [course, outgoing, through, hended, syncItems, hc, hrun]
    · refine steps_take (n := n) (by simp [course, hc]) (by simpa [through, hended] using hn) ?_
      simp [course, outgoing, through, hended, syncItems, hc, htail, filter_isShown]
  rcases ht with ⟨rfl, hnil⟩ | rfl
  · exact hopen t.sendTail _ _ (List.forall_iff_forall_mem.mpr h.waiting) rfl (by simp [hnil])
      h.jobs
  · rcases sendEvents_shape o s (between AgentEvent.sequence log s.queuedThrough n) with
      hr | ⟨queuedEvents, queuedBytes, hs⟩
    · rw [hr]
      obtain ⟨gapTimer, resyncing, sink, hc, hprefix, hsink⟩ := resync_closing s .slowConsumer
      have hcause := resync_resynced s .slowConsumer
      rw [hc] at hcause ⊢
      refine ⟨⟨fun hs => absurd hended hs, by simp, h.waiting,
        fun held hh => h.held held (hsub held hh), h.buffered,
        fun fill hf => (h.fill fill hf).trans hn, fun hs => by simp [hended] at hs,
        by simp [hended], by simp [through, hended], h.jobs⟩, ?_, fun m _ => .inl rfl, id, hprefix,
        fun _ => hcause.imp id fun hr => .inl (hr.imp fun _ hm => hm)⟩
      have hpre := course_items_prefix (o := o) s sink hsink
      refine steps_cut _ (n := n) (by simpa [course, outgoing, hended, syncItems] using hpre) ?_
      simp [course, outgoing, through, hended, syncItems]
    · rw [hs]
      refine hopen _ _ _ (List.forall_iff_forall_mem.mpr (waiting_append h.waiting _))
        runningItems_append ?_ ?_
      · rw [tailItems_append]
        simp [tailItems, jobItems]
      · refine List.forall_mem_append.mpr ⟨h.jobs, fun job hj event he => ?_⟩
        rw [List.mem_singleton.mp hj] at he
        simp only [jobItems, List.mem_map, CourseItem.event.injEq, exists_eq_right] at he
        exact (mem_between.mp he).1

/-- Progress is queued behind all it follows. -/
theorem Follows.sendLive (h : Side log s) (hended : s.sync = .ended) {frame : LiveFrame}
    (hframe : frame.afterSequence ≤ s.queuedThrough) (bytes : Nat) (replacement : Bool) :
    Follows o log F s (sendLive o s frame bytes replacement) := by
  rcases sendLive_shape o s frame bytes replacement with hs | ⟨inFlight, hs⟩
  · rw [hs]; exact .refl h
  · rw [hs]
    have hjobs : ∀ job ∈ s.sendTail ++ [(⟨.live frame bytes, .waiting⟩ : Job)], ∀ event,
        .event event ∈ jobItems job → event ∈ log := by
      refine List.forall_mem_append.mpr ⟨h.jobs, fun job hj event he => ?_⟩
      rw [List.mem_singleton.mp hj] at he
      simp [jobItems] at he
    refine ⟨⟨fun hs => absurd hended hs, h.syncing, waiting_append h.waiting _, h.held, h.buffered,
      h.fill, h.unsent, h.fromZero, h.queued_le, hjobs⟩, ?_, fun n hn => hn, id, List.prefix_rfl, .inl⟩
    by_cases hc : s.state = .closed
    · refine steps_same ?_
      simp [course, outgoing, through, hc, runningItems_append]
    · refine steps_note (by simp [course, hc]) (hframe.trans_eq (by simp [through, hended])) ?_
      simp [course, outgoing, through, hc, tailItems_append, hended]
      simp [tailItems, jobItems, isShown]

theorem Follows.offerLiveFrame (h : Side log s) (hended : s.sync = .ended) (frame : LiveFrame)
    (replacement : Bool) : Follows o log F s (offerLiveFrame o s frame replacement) := by
  have hoffered : Follows o log F s { s with offeredLive := s.offeredLive ++ [frame] } :=
    .of_core h rfl
  unfold Realtime.offerLiveFrame
  dsimp only
  split
  · exact hoffered.trans (.sendLive hoffered.side hended ‹_› _ _)
  · split
    · exact hoffered
    · exact .of_core h rfl

theorem Follows.offerLiveFrames (h : Side log s) (hended : s.sync = .ended)
    (frames : List LiveFrame) :
    Follows o log F s
      (frames.foldl (fun s frame => Realtime.offerLiveFrame o s frame true) s) := by
  induction frames generalizing s with
  | nil => exact .refl h
  | cons frame frames ih =>
    have hf := Follows.offerLiveFrame (o := o) (F := F) h hended frame true
    exact hf.trans (ih hf.side (hf.ended hended))

theorem Follows.releaseLive (h : Side log s) (hended : s.sync = .ended) :
    Follows o log F s (releaseLive o s) := by
  have hone : ∀ t entry, Side log t → t.sync = .ended →
      Follows o log F t (releaseOne o t entry) := by
    intro t entry ht he
    unfold releaseOne
    split
    · exact .sendLive ht he ‹_› _ _
    · exact .of_core ht rfl
  have hall : ∀ (entries : List HeldFrame) t, Side log t → t.sync = .ended →
      Follows o log F t (entries.foldl (releaseOne o) t) := by
    intro entries
    induction entries with
    | nil => exact fun t ht _ => .refl ht
    | cons entry entries ih =>
      intro t ht he
      have hf := hone t entry ht he
      exact hf.trans (ih _ hf.side (hf.ended he))
  have hcleared : Follows o log F s { s with pendingLive := [], pendingLiveBytes := 0 } :=
    .of_core h rfl
  exact hcleared.trans (hall s.pendingLive _ hcleared.side hended)

theorem Follows.scheduleGapFill (h : Side log s) : Follows o log F s (scheduleGapFill s) := by
  unfold Realtime.scheduleGapFill
  split
  · exact .of_core h rfl
  · split
    · exact .refl h
    · exact .of_core h rfl

theorem Follows.drain (hlog : Ascending AgentEvent.sequence log) (h : Side log s) :
    Follows o log F s (drain o s) := by
  unfold Realtime.drain
  split
  · exact .refl h
  · rename_i hlive
    have hended : s.sync = .ended := by
      by_contra hs
      exact hlive (h.presync hs).2.2
    obtain ⟨pending, pendingBytes, n, he, hn, hsub, hrest⟩ := takeContiguous_takesTo hlog s h.held
    rw [he]
    dsimp only
    rw [List.nil_append]
    have hextend : Follows o log F s
        (if between AgentEvent.sequence log s.queuedThrough n = [] then
          { s with pending, pendingBytes, queuedThrough := n }
        else sendEvents o { s with pending, pendingBytes, queuedThrough := n }
          (between AgentEvent.sequence log s.queuedThrough n)) := by
      split
      · exact .extend pending pendingBytes h hended hn hsub hrest (.inl ⟨rfl, ‹_›⟩)
      · rw [sendEvents_update]
        exact .extend pending pendingBytes h hended hn hsub hrest (.inr rfl)
    have hrelease := hextend.trans (.releaseLive hextend.side (hextend.ended hended))
    exact hrelease.trans (.scheduleGapFill hrelease.side)

end Opensteer.Realtime
