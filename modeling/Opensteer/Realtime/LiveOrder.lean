import Mathlib
import Opensteer.Realtime.Delivery

/-!
# The order of live progress

The progress of one Run is handed over in the order it was offered as long as no
frame goes out at once while an earlier one of its Run, which nothing keeps any
more, is still parked (`Orderly`, `live_order`). Between two windows of a gap
fill nothing releases what is parked, and a frame offered then overtakes it
(`live_overtakes`).
-/

namespace Opensteer.Realtime

variable {o : Options} {s s' : Subscriber} {log : List AgentEvent} {R : RunId}

/-- The frames of one Run. -/
def framesOf (R : RunId) (frames : List LiveFrame) : List LiveFrame :=
  frames.filter fun frame => frame.progress.runId = R

/-- The frames handed over or queued, in order. -/
def lane (s : Subscriber) : List LiveFrame :=
  CourseItem.notes (handed s.sink ++ (syncItems s.sync ++ tailItems s.sendTail))

def parked (s : Subscriber) : List LiveFrame := s.pendingLive.map HeldFrame.frame

/-- If the Run's frames were offered with rising sequences, those handed over,
queued and parked are some of them, in order. -/
def FrameOrder (R : RunId) (s : Subscriber) : Prop :=
  (framesOf R s.offeredLive).Pairwise (fun a b => a.afterSequence ≤ b.afterSequence) →
    (framesOf R (lane s ++ parked s)).Sublist (framesOf R s.offeredLive)

/-- `FrameOrder`, and nothing is parked before the subscriber is live. -/
structure InOrder (R : RunId) (s : Subscriber) : Prop where
  frames : FrameOrder R s
  unparked : s.state = .synchronizing → s.pendingLive = []

/-- `s'` comes of `s` with no frame more, and none out of its place. -/
structure Calm (s s' : Subscriber) : Prop where
  parked : s'.pendingLive = s.pendingLive
  offered : s'.offeredLive = s.offeredLive
  lane : (lane s').Sublist (lane s)
  state : s'.state = .synchronizing → s.state = .synchronizing

theorem framesOf_sublist {l l' : List LiveFrame} (h : l.Sublist l') :
    (framesOf R l).Sublist (framesOf R l') := h.filter _

theorem framesOf_append (l l' : List LiveFrame) :
    framesOf R (l ++ l') = framesOf R l ++ framesOf R l' := List.filter_append ..

theorem InOrder.calm (h : InOrder R s) (hc : Calm s s') : InOrder R s' where
  frames hsorted := by
    rw [hc.offered] at hsorted ⊢
    refine List.Sublist.trans (framesOf_sublist ?_) (h.frames hsorted)
    rw [Realtime.parked, hc.parked]
    exact hc.lane.append (List.Sublist.refl _)
  unparked hs := hc.parked.trans (h.unparked (hc.state hs))

namespace Calm

theorem refl (s : Subscriber) : Calm s s := ⟨rfl, rfl, List.Sublist.refl _, id⟩

theorem trans {t u : Subscriber} (h : Calm s t) (h' : Calm t u) : Calm s u :=
  ⟨h'.parked.trans h.parked, h'.offered.trans h.offered, h'.lane.trans h.lane,
    fun hs => h.state (h'.state hs)⟩

theorem closing (h : Closing s s') : Calm s s' := by
  obtain ⟨_, _, sink, rfl, -, hsink⟩ := h
  exact ⟨rfl, rfl, by simp only [Realtime.lane, hsink]; exact List.Sublist.refl _, by simp⟩

/-- `synchronize` goes on to another wait with no more to send. -/
theorem waits (s : Subscriber) (sync : SyncPhase)
    (hs : (CourseItem.notes (syncItems sync)).Sublist (CourseItem.notes (syncItems s.sync))) :
    Calm s { s with sync } := by
  refine ⟨rfl, rfl, ?_, id⟩
  simp only [Realtime.lane, CourseItem.notes_append]
  exact (List.Sublist.refl _).append (hs.append (List.Sublist.refl _))

theorem ends (s : Subscriber) : Calm s { s with sync := .ended } :=
  waits s .ended (List.nil_sublist _)

/-- `#sendTail` goes on with no more to send. -/
theorem tail (s : Subscriber) (sendTail : List Job)
    (hs : (CourseItem.notes (tailItems sendTail)).Sublist (CourseItem.notes (tailItems s.sendTail))) :
    Calm s { s with sendTail } := by
  refine ⟨rfl, rfl, ?_, id⟩
  simp only [Realtime.lane, CourseItem.notes_append]
  exact (List.Sublist.refl _).append ((List.Sublist.refl _).append hs)

theorem resync (s : Subscriber) (reason : ResyncReason) : Calm s (resync s reason) :=
  .closing (resync_closing s reason)

theorem closeEnded (s : Subscriber) : Calm s (close { s with sync := .ended }) :=
  (ends s).trans (.closing (close_closing _))

theorem notes_shown (items : List (CourseItem AgentEvent LiveFrame)) :
    CourseItem.notes (items.filter (isShown o)) = CourseItem.notes items := by
  induction items with
  | nil => rfl
  | cons item items ih =>
    cases item with
    | event event =>
      by_cases hv : isShown o (.event event) = true
      · rw [List.filter_cons_of_pos hv]
        exact ih
      · rw [List.filter_cons_of_neg hv]
        exact ih
    | note frame =>
      rw [List.filter_cons_of_pos rfl]
      exact congrArg (frame :: ·) ih

/-- A send of what was next to go out. -/
theorem hand {t : Subscriber} {m : HostMessage} (hparked : t.pendingLive = s.pendingLive)
    (hoffered : t.offeredLive = s.offeredLive) (hsink : t.sink = s.sink) (hstate : t.state = s.state)
    (hout : (CourseItem.notes (messageItems m ++ (syncItems t.sync ++ tailItems t.sendTail))).Sublist
      (CourseItem.notes (syncItems s.sync ++ tailItems s.sendTail))) : Calm s (send o t m) := by
  obtain ⟨sink, _, _, he, -, hhanded⟩ := send_shape o t m
  rw [he]
  refine ⟨hparked, hoffered, ?_, fun hs => hstate ▸ hs⟩
  simp only [Realtime.lane, hhanded, hsink]
  simp only [CourseItem.notes_append, notes_shown, List.append_assoc] at hout ⊢
  exact (List.Sublist.refl _).append hout

theorem sendEvents (o : Options) (s : Subscriber) (events : List AgentEvent) :
    Calm s (sendEvents o s events) := by
  rcases sendEvents_shape o s events with hs | ⟨_, _, hs⟩
  · rw [hs]; exact .resync s _
  · rw [hs]
    refine ⟨rfl, rfl, ?_, id⟩
    simp [Realtime.lane, tailItems, jobItems]

theorem takeContiguousLoop (fuel : Nat) (s : Subscriber) (batch : List AgentEvent) :
    Calm s (takeContiguousLoop fuel s batch).1 := by
  induction fuel generalizing s batch with
  | zero => exact refl s
  | succ fuel ih =>
    unfold Realtime.takeContiguousLoop
    split
    · exact refl s
    · rename_i held hfind
      have htaken : Calm s { s with
          pending := s.pending.filter fun h => h.event.sequence ≠ s.queuedThrough + 1
          pendingBytes := s.pendingBytes - held.bytes
          queuedThrough := s.queuedThrough + 1 } := ⟨rfl, rfl, List.Sublist.refl _, id⟩
      exact htaken.trans (ih _ _)

theorem hold (o : Options) (s : Subscriber) (event : AgentEvent) : Calm s (hold o s event).1 := by
  rcases hold_shape o s event with ⟨hs, -⟩ | ⟨_, _, hs⟩ | ⟨reason, hs⟩
  · rw [hs]; exact refl s
  · rw [hs]; exact ⟨rfl, rfl, List.Sublist.refl _, id⟩
  · rw [hs]; exact .resync s reason

theorem holdBuffered (o : Options) (s : Subscriber) (events : List AgentEvent) :
    Calm s (holdBuffered o s events).1 := by
  induction events generalizing s with
  | nil => exact refl s
  | cons event rest ih =>
    unfold Realtime.holdBuffered
    split
    · have hc := hold o s event
      split
      · rename_i t hs
        rw [hs] at hc
        exact hc.trans (ih t)
      · rename_i t hs
        rw [hs] at hc
        exact hc
    · exact ih s

theorem scheduleGapFill (s : Subscriber) : Calm s (scheduleGapFill s) := by
  unfold Realtime.scheduleGapFill
  split
  · exact ⟨rfl, rfl, List.Sublist.refl _, id⟩
  · split
    · exact refl s
    · exact ⟨rfl, rfl, List.Sublist.refl _, id⟩

end Calm

/-! ## Frames that are parked and released -/

theorem lane_sendLive (o : Options) (s : Subscriber) (frame : LiveFrame) (bytes : Nat)
    (replacement : Bool) :
    (lane (sendLive o s frame bytes replacement)).Sublist (lane s ++ [frame]) ∧
      (sendLive o s frame bytes replacement).pendingLive = s.pendingLive ∧
      (sendLive o s frame bytes replacement).offeredLive = s.offeredLive ∧
      (sendLive o s frame bytes replacement).state = s.state ∧
      (sendLive o s frame bytes replacement).queuedThrough = s.queuedThrough := by
  rcases sendLive_shape o s frame bytes replacement with hs | ⟨_, hs⟩
  · rw [hs]; exact ⟨List.sublist_append_left _ _, rfl, rfl, rfl, rfl⟩
  · rw [hs]
    refine ⟨?_, rfl, rfl, rfl, rfl⟩
    simp [lane, tailItems, jobItems]

/-- `#releaseLive` queues some of the parked frames nothing keeps any more, in
order, and parks the others again. -/
theorem releaseFold (o : Options) (entries : List HeldFrame) (s : Subscriber) :
    (lane (entries.foldl (releaseOne o) s)).Sublist (lane s ++
        (entries.map HeldFrame.frame).filter fun frame => frame.afterSequence ≤ s.queuedThrough) ∧
      parked (entries.foldl (releaseOne o) s) = parked s ++
        (entries.map HeldFrame.frame).filter (fun frame => s.queuedThrough < frame.afterSequence) ∧
      (entries.foldl (releaseOne o) s).offeredLive = s.offeredLive ∧
      (entries.foldl (releaseOne o) s).state = s.state := by
  induction entries generalizing s with
  | nil => simp
  | cons entry entries ih =>
    rw [List.foldl_cons, List.map_cons]
    by_cases hle : entry.frame.afterSequence ≤ s.queuedThrough
    · obtain ⟨hlane, hp, ho, hst, hq⟩ :=
        lane_sendLive o s entry.frame entry.bytes entry.replacement
      have hone : releaseOne o s entry = sendLive o s entry.frame entry.bytes entry.replacement :=
        if_pos hle
      obtain ⟨h₁, h₂, h₃, h₄⟩ := ih (releaseOne o s entry)
      rw [hone] at h₁ h₂ h₃ h₄ ⊢
      rw [hq] at h₁ h₂
      rw [List.filter_cons_of_pos (by simpa using hle),
        List.filter_cons_of_neg (by simpa using hle)]
      refine ⟨h₁.trans ?_, ?_, h₃.trans ho, h₄.trans hst⟩
      · rw [List.append_cons]
        exact hlane.append (List.Sublist.refl _)
      · rw [h₂, parked, hp, parked]
    · have hone : releaseOne o s entry = park s entry := if_neg hle
      obtain ⟨h₁, h₂, h₃, h₄⟩ := ih (releaseOne o s entry)
      rw [hone] at h₁ h₂ h₃ h₄ ⊢
      rw [List.filter_cons_of_neg (by simpa using hle),
        List.filter_cons_of_pos (by simpa using hle)]
      refine ⟨h₁, ?_, h₃, h₄⟩
      have hp : parked (park s entry) = parked s ++ [entry.frame] := List.map_append
      rw [h₂, hp, List.append_assoc]
      rfl

theorem InOrder.releaseLive (h : InOrder R s) (hstate : s.state ≠ .synchronizing) :
    InOrder R (releaseLive o s) := by
  have hfold := releaseFold o s.pendingLive { s with pendingLive := [], pendingLiveBytes := 0 }
  have hlane : (lane (Realtime.releaseLive o s)).Sublist
      (lane s ++ (parked s).filter fun frame => frame.afterSequence ≤ s.queuedThrough) := hfold.1
  have hparked : parked (Realtime.releaseLive o s) =
      (parked s).filter fun frame => s.queuedThrough < frame.afterSequence := hfold.2.1
  have hoffered : (Realtime.releaseLive o s).offeredLive = s.offeredLive := hfold.2.2.1
  have hst : (Realtime.releaseLive o s).state = s.state := hfold.2.2.2
  refine ⟨fun hsorted => ?_, fun hs => absurd (hst.symm.trans hs) hstate⟩
  rw [hoffered] at hsorted ⊢
  have hall := h.frames hsorted
  -- The Run's parked frames rise, so those released are the first of them.
  have hrise : (framesOf R (parked s)).Pairwise fun a b => a.afterSequence ≤ b.afterSequence := by
    refine hsorted.sublist (List.Sublist.trans ?_ hall)
    rw [framesOf_append]
    exact List.sublist_append_right _ _
  have hsplit : framesOf R ((parked s).filter fun frame => frame.afterSequence ≤ s.queuedThrough) ++
      framesOf R ((parked s).filter fun frame => s.queuedThrough < frame.afterSequence) =
      framesOf R (parked s) := by
    have hcomm : ∀ p : LiveFrame → Bool,
        framesOf R ((parked s).filter p) = (framesOf R (parked s)).filter p := fun p => by
      simp only [framesOf, List.filter_filter, Bool.and_comm]
    rw [hcomm, hcomm, filter_append_filter hrise]
    · refine List.filter_eq_self.mpr fun a _ => ?_
      simp only [Bool.or_eq_true, decide_eq_true_eq]
      omega
    · intro a b ha hb
      have := of_decide_eq_true ha
      have := of_decide_eq_true hb
      omega
  have hout := framesOf_sublist (R := R)
    (hlane.append (List.Sublist.refl (parked (Realtime.releaseLive o s))))
  rw [hparked, List.append_assoc, framesOf_append (lane s),
    framesOf_append (List.filter _ _) (List.filter _ _), hsplit, ← framesOf_append (lane s)] at hout
  rw [hparked]
  exact hout.trans hall

/-- No frame of the Run is parked that nothing keeps any more. -/
def Clean (R : RunId) (s : Subscriber) : Prop :=
  ∀ entry ∈ s.pendingLive, entry.frame.progress.runId = R →
    s.queuedThrough < entry.frame.afterSequence

theorem framesOf_of_ne {frame : LiveFrame} (h : frame.progress.runId ≠ R) :
    framesOf R [frame] = [] := List.filter_eq_nil_iff.mpr (by simpa using h)

/-- A frame is dropped, goes out where none of its Run still has to, or is
parked behind those of its Run. -/
theorem InOrder.offerLiveFrame (h : InOrder R s) (hstate : s.state ≠ .synchronizing)
    (frame : LiveFrame) (replacement : Bool)
    (hclean : frame.progress.runId = R → frame.afterSequence ≤ s.queuedThrough →
      replacement = true ∨ s.liveInFlightBytes + o.liveFrameBytes frame ≤ o.maxLiveBytes →
      Clean R s) : InOrder R (offerLiveFrame o s frame replacement) := by
  have hoffer : ∀ t : Subscriber, t.offeredLive = s.offeredLive ++ [frame] → t.state = s.state →
      (((framesOf R (s.offeredLive ++ [frame])).Pairwise
        fun a b => a.afterSequence ≤ b.afterSequence) →
        (framesOf R (lane t ++ parked t)).Sublist
          (framesOf R s.offeredLive ++ framesOf R [frame])) → InOrder R t := by
    intro t hoffered hst hframes
    refine ⟨fun hsorted => ?_, fun hs => absurd (hst.symm.trans hs) hstate⟩
    rw [hoffered] at hsorted ⊢
    rw [framesOf_append s.offeredLive]
    exact hframes hsorted
  have hbefore : (framesOf R (s.offeredLive ++ [frame])).Pairwise
      (fun a b => a.afterSequence ≤ b.afterSequence) →
      (framesOf R (lane s ++ parked s)).Sublist (framesOf R s.offeredLive) := fun hsorted =>
    h.frames (hsorted.sublist (framesOf_sublist (List.sublist_append_left _ _)))
  unfold Realtime.offerLiveFrame
  dsimp only
  split
  · rename_i hle
    unfold sendLive
    split
    · refine hoffer _ rfl rfl fun hsorted => (hbefore hsorted).trans (List.sublist_append_left _ _)
    · rename_i hroom
      refine hoffer _ rfl rfl fun hsorted => ?_
      have hlane : lane (addJob { s with
          offeredLive := s.offeredLive ++ [frame]
          liveInFlightBytes := s.liveInFlightBytes + o.liveFrameBytes frame }
          (.live frame (o.liveFrameBytes frame))) = lane s ++ [frame] := by
        simp [lane, addJob, tailItems, jobItems]
      rw [hlane]
      by_cases hR : frame.progress.runId = R
      · -- What is parked stands after `frame`, and before it among those offered.
        have hnone : framesOf R (parked s) = [] := by
          refine List.filter_eq_nil_iff.mpr fun p hp hrun => ?_
          obtain ⟨entry, hentry, rfl⟩ := List.mem_map.mp hp
          have hrun := of_decide_eq_true hrun
          have hlater := hclean hR hle (by
            by_cases hr : replacement = true
            · exact .inl hr
            · simp only [Bool.not_eq_true] at hr
              simp only [hr, true_and] at hroom
              exact .inr (Int.not_lt.mp hroom)) entry hentry hrun
          have hmem : entry.frame ∈ framesOf R s.offeredLive :=
            (hbefore hsorted).subset (List.mem_filter.mpr
              ⟨List.mem_append_right _ hp, decide_eq_true hrun⟩)
          rw [framesOf_append] at hsorted
          have := (List.pairwise_append.mp hsorted).2.2 _ hmem frame
            (List.mem_filter.mpr ⟨List.mem_singleton_self _, decide_eq_true hR⟩)
          omega
        have hb := hbefore hsorted
        have hparked : parked (addJob { s with
            offeredLive := s.offeredLive ++ [frame]
            liveInFlightBytes := s.liveInFlightBytes + o.liveFrameBytes frame }
            (.live frame (o.liveFrameBytes frame))) = parked s := rfl
        rw [framesOf_append, hnone, List.append_nil] at hb
        rw [hparked, framesOf_append, hnone, List.append_nil, framesOf_append]
        exact hb.append (List.Sublist.refl _)
      · have hb := hbefore hsorted
        rw [framesOf_append] at hb
        rw [framesOf_append, framesOf_append, framesOf_of_ne hR, List.append_nil, List.append_nil]
        exact hb
  · split
    · exact hoffer _ rfl rfl fun hsorted => (hbefore hsorted).trans (List.sublist_append_left _ _)
    · refine hoffer _ rfl rfl fun hsorted => ?_
      have hparked : ∀ entry, parked (park { s with offeredLive := s.offeredLive ++ [frame] } entry) =
          parked s ++ [entry.frame] := fun entry => List.map_append
      rw [hparked, ← List.append_assoc, framesOf_append]
      exact (hbefore hsorted).append (List.Sublist.refl _)

/-! ## Draining -/

theorem InOrder.drain (h : InOrder R s) : InOrder R (drain o s) := by
  unfold Realtime.drain
  split
  · exact h
  · rename_i hlive
    have hlive : s.state = .live := by simpa using hlive
    have hopen : s.state ≠ .synchronizing := by simp [hlive]
    have htake := Calm.takeContiguousLoop s.pending.length s []
    have hsend : Calm s (if (takeContiguous s).2 = [] then (takeContiguous s).1
        else Realtime.sendEvents o (takeContiguous s).1 (takeContiguous s).2) := by
      split
      · exact htake
      · exact htake.trans (.sendEvents o _ _)
    exact ((h.calm hsend).releaseLive fun hs => hopen (hsend.state hs)).calm (.scheduleGapFill _)

/-- Going live, what is offered is parked only where it has to be. -/
theorem InOrder.offerLiveFrames (frames : List LiveFrame) (h : InOrder R s)
    (hstate : s.state ≠ .synchronizing) (hclean : Clean R s) :
    InOrder R (frames.foldl (fun s frame => Realtime.offerLiveFrame o s frame true) s) := by
  induction frames generalizing s with
  | nil => exact h
  | cons frame frames ih =>
    have hone := h.offerLiveFrame (o := o) hstate frame true fun _ _ _ => hclean
    refine ih hone ?_ ?_
    · unfold Realtime.offerLiveFrame sendLive
      dsimp only
      split
      · split <;> exact hstate
      · split <;> exact hstate
    · unfold Realtime.offerLiveFrame sendLive
      dsimp only
      split
      · split <;> exact hclean
      · split
        · exact hclean
        · rename_i hlater _
          intro entry hentry hrun
          rcases List.mem_append.mp hentry with hentry | hentry
          · exact hclean entry hentry hrun
          · obtain rfl := List.mem_singleton.mp hentry
            exact Nat.lt_of_not_le hlater

theorem InOrder.offer (h : InOrder R s) (event : AgentEvent) : InOrder R (offer o s event) := by
  unfold Realtime.offer
  split
  · exact h
  · split
    · split
      · exact h.calm (.resync s _)
      · exact h.calm ⟨rfl, rfl, List.Sublist.refl _, id⟩
    · have hheld := h.calm (.hold o s event)
      split
      · rename_i t hs
        rw [hs] at hheld
        exact hheld.drain
      · rename_i t hs
        rw [hs] at hheld
        exact hheld

/-! ## Filling gaps -/

theorem InOrder.endFill (h : InOrder R s) :
    InOrder R (Realtime.drain o { discardDelivered s with filling := none }) := by
  have hc : Calm s { discardDelivered s with filling := none } :=
    ⟨rfl, rfl, List.Sublist.refl _, id⟩
  exact (h.calm hc).drain

theorem InOrder.fillLoop (h : InOrder R s) (through : Nat) : InOrder R (fillLoop o s through) := by
  unfold Realtime.fillLoop
  split
  · exact h.calm ⟨rfl, rfl, List.Sublist.refl _, id⟩
  · exact h.endFill

theorem InOrder.fillGap (h : InOrder R s) : InOrder R (fillGap o s) := by
  unfold Realtime.fillGap
  split
  · exact h
  · split
    · exact h
    · exact h.fillLoop _

theorem Calm.queueFresh (o : Options) (s : Subscriber) (fill : Fill) (window : Window) :
    Calm s (queueFresh o s fill window) := by
  unfold Realtime.queueFresh
  dsimp only
  split
  · exact .refl s
  · exact (Calm.sendEvents o s _).trans ⟨rfl, rfl, List.Sublist.refl _, id⟩

theorem InOrder.fillWindow (h : InOrder R s) (fill : Fill) (window : Window) :
    InOrder R (fillWindow o s fill window) := by
  have hmove : ∀ q, InOrder R { queueFresh o s fill window with queuedThrough := q } := fun q =>
    (h.calm (.queueFresh o s fill window)).calm ⟨rfl, rfl, List.Sublist.refl _, id⟩
  unfold Realtime.fillWindow
  dsimp only
  split
  · exact (hmove _).endFill
  · split
    · exact ((hmove _).calm (.resync _ _)).calm ⟨rfl, rfl, List.Sublist.refl _, id⟩
    · exact (hmove _).fillLoop _

/-! ## Jobs -/

/-- A job that has begun has no progress left to send. -/
theorem notes_begun (body : JobBody) {phase : JobPhase} (h : phase ≠ .waiting) :
    CourseItem.notes (jobItems ⟨body, phase⟩) = [] := by
  cases phase with
  | waiting => exact absurd rfl h
  | sending rest =>
    have hitems : jobItems ⟨body, .sending rest⟩ = rest.flatten.map .event := by cases body <;> rfl
    rw [hitems, CourseItem.notes_map_event]
  | settled => cases body <;> rfl

theorem notes_tail (job : Job) (rest : List Job) : CourseItem.notes (tailItems (job :: rest)) =
    CourseItem.notes (jobItems job) ++ CourseItem.notes (tailItems rest) := by
  rw [tailItems, List.flatMap_cons, CourseItem.notes_append]
  rfl

theorem notes_begun_tail (body : JobBody) {phase : JobPhase} (h : phase ≠ .waiting)
    (rest : List Job) : CourseItem.notes (tailItems (⟨body, phase⟩ :: rest)) =
      CourseItem.notes (tailItems rest) := by
  rw [notes_tail, notes_begun body h, List.nil_append]

/-- The first job of `#sendTail` goes on, sending no progress. -/
theorem Calm.begun {body : JobBody} {phase phase' : JobPhase} {rest : List Job}
    (htail : s.sendTail = ⟨body, phase⟩ :: rest) (h : phase' ≠ .waiting) :
    Calm s { s with sendTail := ⟨body, phase'⟩ :: rest } := by
  refine .tail s _ ?_
  rw [htail, notes_begun_tail body h, notes_tail]
  exact List.sublist_append_right _ _

/-- The first job of `#sendTail` sends what it is, or a batch of events. -/
theorem Calm.jobSend {body : JobBody} {phase : JobPhase} {rest : List Job}
    {batches : List (List AgentEvent)} {m : HostMessage} (hended : s.sync = .ended)
    (htail : s.sendTail = ⟨body, phase⟩ :: rest)
    (hm : (CourseItem.notes (messageItems m)).Sublist (CourseItem.notes (jobItems ⟨body, phase⟩))) :
    Calm s (send o { s with sendTail := ⟨body, .sending batches⟩ :: rest } m) := by
  refine .hand rfl rfl rfl rfl ?_
  have hnil : syncItems s.sync = [] := by rw [hended]; rfl
  have hbegun := notes_begun_tail body (by simp : JobPhase.sending batches ≠ .waiting) rest
  simp only [hnil, List.nil_append, htail, CourseItem.notes_append, hbegun, notes_tail]
  exact hm.append (List.Sublist.refl _)

theorem Calm.failDelivery (s : Subscriber) : Calm s (failDelivery s) :=
  .closing (failDelivery_closing s)

theorem Calm.startJob {body : JobBody} {rest : List Job} (hended : s.sync = .ended)
    (htail : s.sendTail = ⟨body, .waiting⟩ :: rest) : Calm s (startJob o s body rest) := by
  have hsettle : Calm s { s with sendTail := ⟨body, .settled⟩ :: rest } :=
    .begun htail (by simp)
  have hevents : ∀ events, CourseItem.notes (messageItems (.events events)) = [] :=
    fun events => CourseItem.notes_map_event events
  cases body with
  | events events =>
    unfold Realtime.startJob
    dsimp only
    split
    · exact hsettle
    · split
      · exact hsettle.trans (.failDelivery _)
      · exact hsettle
      · exact .jobSend hended htail (by rw [hevents]; exact List.nil_sublist _)
  | synchronized => exact hsettle
  | live frame bytes =>
    by_cases hlive : s.state = .live
    · simpa only [Realtime.startJob, jobSends, if_pos hlive] using
        Calm.jobSend (m := .live frame frame.afterSequence) hended htail (List.Sublist.refl _)
    · simpa only [Realtime.startJob, jobSends, if_neg hlive] using hsettle
  | message message =>
    by_cases hlive : s.state = .live
    · simpa only [Realtime.startJob, jobSends, if_pos hlive] using
        Calm.jobSend (m := .queued message) hended htail (List.Sublist.refl _)
    · simpa only [Realtime.startJob, jobSends, if_neg hlive] using hsettle

theorem Calm.finishJob {body : JobBody} {rest : List Job}
    (htail : s.sendTail = ⟨body, .settled⟩ :: rest) : Calm s (finishJob o s body rest) := by
  have hdone : Calm s { s with sendTail := rest } := by
    refine .tail s _ ?_
    rw [htail, notes_begun_tail body (by simp)]
  unfold Realtime.finishJob
  cases body <;> exact hdone.trans ⟨rfl, rfl, List.Sublist.refl _, id⟩

theorem Calm.jobSendRejects {body : JobBody} {phase : JobPhase} {rest : List Job}
    (htail : s.sendTail = ⟨body, phase⟩ :: rest) : Calm s (jobSendRejects s body rest) := by
  have hsettle : Calm s { s with sendTail := ⟨body, .settled⟩ :: rest } :=
    .begun htail (by simp)
  unfold Realtime.jobSendRejects
  dsimp only
  split
  · exact hsettle.trans (.closing (close_closing _))
  · exact hsettle.trans (.failDelivery _)

/-! ## Synchronizing -/

theorem Calm.batches (s : Subscriber) (batches : List (List AgentEvent)) :
    Calm s { s with sync := .batches batches } := by
  refine .waits s _ ?_
  rw [syncItems, CourseItem.notes_map_event]
  exact List.nil_sublist _

/-- What `synchronize` sends that is no progress. -/
theorem Calm.syncSend {m : HostMessage} {t : Subscriber} (hc : Calm s t)
    (hm : CourseItem.notes (messageItems m) = []) : Calm s (send o t m) := by
  refine hc.trans (.hand rfl rfl rfl rfl ?_)
  rw [CourseItem.notes_append, hm]
  exact List.Sublist.refl _

theorem Calm.syncMessages {messages : List HostMessage} (cursor : Nat)
    (hm : (CourseItem.notes (messages.flatMap messageItems)).Sublist (CourseItem.notes (syncItems s.sync))) :
    Calm s (syncMessages o s messages cursor) := by
  unfold Realtime.syncMessages
  split
  · have hq : Calm s { s with queuedThrough := cursor } := ⟨rfl, rfl, List.Sublist.refl _, id⟩
    exact hq.trans (.waits _ _ (List.nil_sublist _))
  · refine .hand rfl rfl rfl rfl ?_
    simp only [List.flatMap_cons, CourseItem.notes_append] at hm
    simp only [CourseItem.notes_append, syncItems, ← List.append_assoc]
    exact hm.append (List.Sublist.refl _)

theorem Calm.replayLoop {messages : List HostMessage} (cursor head bytes events : Nat)
    (hm : (CourseItem.notes (messages.flatMap messageItems)).Sublist (CourseItem.notes (syncItems s.sync))) :
    Calm s (replayLoop o s cursor head bytes events messages) := by
  unfold Realtime.replayLoop
  split
  · exact .waits s _ hm
  · exact .syncMessages cursor hm

theorem Calm.replayWindow {cursor head replayBytes replayEvents : Nat}
    {messages : List HostMessage}
    (hsync : s.sync = .replay cursor head replayBytes replayEvents messages) (window : Window) :
    Calm s (replayWindow o s cursor head replayBytes replayEvents messages window) := by
  have hexpired : Calm s { Realtime.resync s .cursorExpired with sync := .ended } :=
    (Calm.resync s _).trans (.ends _)
  unfold Realtime.replayWindow
  dsimp only
  split
  · exact hexpired
  · split
    · exact hexpired
    · split
      · exact .closeEnded s
      · split
        · exact hexpired
        · refine .replayLoop _ _ _ _ ?_
          rw [List.flatMap_append, flatMap_batches, CourseItem.notes_append, CourseItem.notes_map_event,
            List.append_nil, hsync]
          exact List.Sublist.refl _

theorem InOrder.goLive (h : InOrder R s) (hnone : s.pendingLive = [])
    (liveFrames : List LiveFrame) : InOrder R (goLive o s liveFrames) := by
  have hc : Calm s { send o s (.synchronized s.queuedThrough) with
      sendTail := [⟨.synchronized, .sending []⟩], state := .live, sync := .ended } := by
    have hsent : Calm s (send o s (.synchronized s.queuedThrough)) :=
      .hand rfl rfl rfl rfl (List.Sublist.refl _)
    have hlive : Calm (send o s (.synchronized s.queuedThrough))
        { send o s (.synchronized s.queuedThrough) with state := .live } :=
      ⟨rfl, rfl, List.Sublist.refl _, by simp⟩
    exact ((hsent.trans hlive).trans (.ends _)).trans (.tail _ _ (List.nil_sublist _))
  unfold Realtime.goLive
  refine InOrder.drain (.offerLiveFrames liveFrames (h.calm hc) (by simp) ?_)
  intro entry hentry
  rw [hc.parked, hnone] at hentry
  cases hentry

theorem InOrder.syncQuiet (h : InOrder R s) (hnone : s.pendingLive = [])
    (liveFrames : List LiveFrame) : InOrder R (syncQuiet o s liveFrames) := by
  unfold Realtime.syncQuiet
  split
  · rename_i notice rest hnotices
    have hwait : ∀ notices, Calm s { s with syncNotices := rest, sync := .notices notices } := by
      intro notices
      have hrest : Calm s { s with syncNotices := rest } := ⟨rfl, rfl, List.Sublist.refl _, id⟩
      exact hrest.trans (.waits _ _ (List.nil_sublist _))
    split
    · exact h.calm (hwait [])
    · exact h.calm (.syncSend (hwait _) rfl)
  · split
    · rename_i message rest hmessages
      have hrest : Calm s { s with
          syncViewerMessages := rest
          viewerBufferedBytes := s.viewerBufferedBytes - viewerBytes message } :=
        ⟨rfl, rfl, List.Sublist.refl _, id⟩
      exact h.calm (.syncSend (hrest.trans (.waits _ .viewerMessage (List.nil_sublist _))) rfl)
    · exact h.goLive hnone liveFrames

theorem InOrder.syncLoop (h : InOrder R s) (liveFrames : List LiveFrame) :
    InOrder R (syncLoop o s liveFrames) := by
  unfold Realtime.syncLoop
  split
  · exact h.calm (.ends s)
  · rename_i hstate
    have hnone := h.unparked (by simpa using hstate)
    have hcleared : Calm s { s with syncBuffer := [] } := ⟨rfl, rfl, List.Sublist.refl _, id⟩
    have hbuffered := hcleared.trans (.holdBuffered o _ s.syncBuffer)
    split
    · rename_i t ht
      rw [ht] at hbuffered
      exact h.calm (hbuffered.trans (.ends t))
    · rename_i t ht
      rw [ht] at hbuffered
      have hzero : Calm t { t with syncBufferedBytes := 0 } := ⟨rfl, rfl, List.Sublist.refl _, id⟩
      have htaken : Calm s (takeContiguous { t with syncBufferedBytes := 0 }).1 :=
        (hbuffered.trans hzero).trans (.takeContiguousLoop _ _ _)
      dsimp only
      split
      · exact (h.calm htaken).syncQuiet (htaken.parked.trans hnone) liveFrames
      · have hwait : ∀ batches, Calm s
            { (takeContiguous { t with syncBufferedBytes := 0 }).1 with sync := .batches batches } :=
          fun batches => htaken.trans (.batches _ batches)
        split
        · exact h.calm (htaken.trans (.closeEnded _))
        · exact h.calm (hwait [])
        · exact h.calm (.syncSend (hwait _) (CourseItem.notes_map_event _))

theorem InOrder.syncSendResolves (h : InOrder R s) {liveFrames : List LiveFrame} {s' : Subscriber}
    (hs : syncSendResolves o s liveFrames = some s') : InOrder R s' := by
  unfold Realtime.syncSendResolves at hs
  split at hs
  · rename_i rest cursor hsync
    cases hs
    exact h.calm (.syncMessages cursor (by rw [hsync]; exact List.Sublist.refl _))
  · cases hs
    exact h.calm (.syncSend (.batches s _) (CourseItem.notes_map_event _))
  · cases hs
    exact h.calm (.syncSend (.waits s _ (List.nil_sublist _)) rfl)
  · cases hs; exact h.syncLoop _
  · cases hs; exact h.syncLoop _
  · cases hs; exact h.syncLoop _
  · cases hs

/-! ## The machine -/

/-- A frame of the Run that would go out at once finds none of its Run parked
that nothing keeps any more. -/
def Orderly (o : Options) (R : RunId) (s : Subscriber) : Action → Prop
  | .offerLive frame =>
    s.state = .live → frame.progress.runId = R → frame.afterSequence ≤ s.queuedThrough →
      s.liveInFlightBytes + o.liveFrameBytes frame ≤ o.maxLiveBytes → Clean R s
  | _ => True

instance (R : RunId) (s : Subscriber) : Decidable (Clean R s) := by
  unfold Clean; infer_instance

instance (o : Options) (R : RunId) (s : Subscriber) : DecidablePred (Orderly o R s)
  | .offerLive _ => by unfold Orderly; infer_instance
  | .membershipResolves _ | .snapshotResolves _ | .headResolves _ | .replayResolves _ | .subscribeRejects
  | .syncSendResolves _ | .syncSendRejects | .viewerSnapshotSends _ | .viewerSnapshotResolves _ | .offer _
  | .enqueueMessage _ | .resync _ | .close | .gapTimerFires | .fillResolves _ | .fillRejects | .jobStarts
  | .jobSendResolves | .jobSendRejects | .jobFinishes | .resyncSettles => .isTrue trivial

theorem inOrder_step (side : Side log s) (h : InOrder R s) {a : Action} {s' : Subscriber}
    (hord : Orderly o R s a) (hs : step o s a = some s') : InOrder R s' := by
  cases a with
  | membershipResolves isActive =>
    simp only [step] at hs
    split at hs <;> cases hs
    split
    · refine h.calm (.waits s _ ?_)
      split <;> exact List.nil_sublist _
    · exact h.calm (.closeEnded s)
  | snapshotResolves sequence =>
    simp only [step] at hs
    split at hs <;> cases hs
    have hstart : Calm s { s with start := sequence } := ⟨rfl, rfl, List.Sublist.refl _, id⟩
    exact h.calm (hstart.trans (.syncMessages sequence (List.nil_sublist _)))
  | headResolves head =>
    simp only [step] at hs
    split at hs <;> cases hs
    split
    · exact h.calm ((Calm.resync s _).trans (.ends _))
    · exact h.calm (.replayLoop _ _ _ _ (List.nil_sublist _))
  | replayResolves window =>
    simp only [step] at hs
    split at hs
    · rename_i hsync
      cases hs
      exact h.calm (.replayWindow hsync window)
    · cases hs
  | subscribeRejects =>
    simp only [step] at hs
    split at hs <;> cases hs
    exact h.calm (.closeEnded s)
  | syncSendResolves liveFrames => exact h.syncSendResolves hs
  | syncSendRejects =>
    simp only [step] at hs
    split at hs <;> cases hs
    exact h.calm (.closeEnded s)
  | viewerSnapshotSends message =>
    simp only [step] at hs
    split at hs <;> cases hs
    refine h.calm ⟨rfl, rfl, ?_, id⟩
    simp [lane, sinkSend, messageItems]
  | viewerSnapshotResolves liveFrames =>
    simp only [step] at hs
    split at hs <;> cases hs
    exact h.syncLoop _
  | offer event => cases hs; exact h.offer event
  | offerLive frame =>
    cases hs
    unfold offerLive
    split
    · exact h
    · rename_i hlive
      have hlive : s.state = .live := by simpa using hlive
      refine h.offerLiveFrame (by simp [hlive]) frame false fun hR hle hroom => ?_
      exact hord hlive hR hle (hroom.resolve_left (by simp))
  | enqueueMessage message =>
    cases hs
    unfold enqueueMessage
    split
    · split
      · exact h.calm ⟨rfl, rfl, List.Sublist.refl _, id⟩
      · split
        · exact h.calm (.resync s _)
        · exact h.calm ⟨rfl, rfl, List.Sublist.refl _, id⟩
      · exact h
    · refine h.calm (.tail s _ ?_)
      rw [tailItems_append, CourseItem.notes_append]
      simp [tailItems, jobItems]
    · exact h
  | resync reason => cases hs; exact h.calm (.resync s reason)
  | close => cases hs; exact h.calm (.closing (close_closing s))
  | gapTimerFires =>
    simp only [step] at hs
    split at hs <;> cases hs
    have ht : Calm s { s with gapTimer := false } := ⟨rfl, rfl, List.Sublist.refl _, id⟩
    exact (h.calm ht).fillGap
  | fillResolves window =>
    simp only [step] at hs
    split at hs
    · cases hs
      exact h.fillWindow _ window
    · cases hs
  | fillRejects =>
    simp only [step] at hs
    split at hs <;> cases hs
    exact (h.calm (.resync s _)).calm ⟨rfl, rfl, List.Sublist.refl _, id⟩
  | jobStarts =>
    simp only [step] at hs
    split at hs
    · rename_i htail
      cases hs
      exact h.calm (.startJob (sync_ended_of_tail side htail) htail)
    · cases hs
  | jobSendResolves =>
    simp only [step] at hs
    split at hs
    · rename_i htail
      cases hs
      exact h.calm (.begun htail (by simp))
    · rename_i htail
      cases hs
      refine h.calm (.jobSend (sync_ended_of_tail side htail) htail ?_)
      rw [messageItems, CourseItem.notes_map_event]
      exact List.nil_sublist _
    · cases hs
  | jobSendRejects =>
    simp only [step] at hs
    split at hs
    · rename_i htail
      cases hs
      exact h.calm (.jobSendRejects htail)
    · cases hs
  | jobFinishes =>
    simp only [step] at hs
    split at hs
    · rename_i htail
      cases hs
      exact h.calm (.finishJob htail)
    · cases hs
  | resyncSettles =>
    simp only [step] at hs
    split at hs <;> cases hs
    refine h.calm ⟨rfl, rfl, ?_, id⟩
    simp [lane, sinkClose]

variable {n : Nat} {as : List Action}

theorem inOrder_initial (R : RunId) (n : Nat) : InOrder R (.initial n) where
  frames _ := List.Sublist.refl _
  unparked _ := rfl

/-- Live order. If the Run's frames were offered with rising sequences, those
handed to the sink are some of them, in the order they were offered; and each was
handed over after every event, of those the subscriber is sent, that it follows. -/
def LiveOrdered (o : Options) (log : List AgentEvent) (R : RunId) (s : Subscriber) : Prop :=
  (framesOf R s.offeredLive).Pairwise (fun a b => a.afterSequence ≤ b.afterSequence) →
    (framesOf R (CourseItem.notes (handed s.sink))).Sublist (framesOf R s.offeredLive) ∧
    ∀ (pre : List (CourseItem AgentEvent LiveFrame)) frame post, handed s.sink = pre ++ CourseItem.note frame :: post → frame.progress.runId = R →
      ∀ r ∈ log, isVisible o r = true → s.start < r.sequence →
        r.sequence ≤ frame.afterSequence → r ∈ CourseItem.events pre

/-- Live order holds after any run in which no frame of the Run goes out past an
earlier one. -/
theorem live_order (o : Options) (hlog : Ascending AgentEvent.sequence log)
    (hmeets : (machine o).Meets (fun s a => Legal log s a ∧ Orderly o R s a) (.initial n) as)
    (hrun : (machine o).run (.initial n) as = some s) : LiveOrdered o log R s := by
  have hlegal : (machine o).Meets (Legal log) (.initial n) as :=
    Machine.Meets.mono _ (fun _ _ h => h.1) hmeets
  have horder : Side log s ∧ InOrder R s := by
    refine (machine o).run_invariant (P := fun s => Side log s ∧ InOrder R s)
      ⟨side_initial log n, inOrder_initial R n⟩ (fun s a t h hG hs => ?_) hmeets hrun
    exact ⟨(follows_step hlog h.1 hG.1 hs).side, inOrder_step h.1 h.2 hG.2 hs⟩
  refine fun hrising => ⟨List.Sublist.trans (framesOf_sublist ?_) (horder.2.frames hrising),
    fun pre frame post he _ r hr hv hs hle => live_after_durable hlog hlegal hrun he hr hv hs hle⟩
  rw [lane, CourseItem.notes_append, List.append_assoc]
  exact List.sublist_append_left _ _

/-! ## A frame that overtakes another -/

def exampleFrame (at_ : Nat) (text : Text) : LiveFrame :=
  ⟨5, exampleRun, ⟨"thread"⟩, ⟨"workspace"⟩, [.append .assistant at_ text]⟩

/-- The log has 2 and 10; the first frame is offered while the subscriber is at 1,
and waits for what it follows. -/
def exampleStart : List Action :=
  [.membershipResolves true, .headResolves 1, .viewerSnapshotResolves [],
    .offerLive (exampleFrame 0 [97]), .offer (exampleEvent 10), .gapTimerFires,
    .fillResolves ⟨[exampleEvent 2], true, 5, 1⟩]

/-- The jobs of two batches of events and two frames, after `host.synchronized`. -/
def exampleSends : List Action :=
  [.jobSendResolves, .jobFinishes, .jobStarts, .jobSendResolves, .jobFinishes, .jobStarts,
    .jobSendResolves, .jobFinishes, .jobStarts, .jobSendResolves, .jobFinishes, .jobStarts]

/-- A frame offered between the two windows of a fill is sent at once, before one
that is parked until the fill ends. -/
theorem live_overtakes : ¬ ∀ (o : Options) (log : List AgentEvent) (n : Nat) (as : List Action)
    (s : Subscriber) (R : RunId), Ascending AgentEvent.sequence log →
      (machine o).Meets (Legal log) (.initial n) as →
      (machine o).run (.initial n) as = some s → LiveOrdered o log R s := by
  intro h
  let as := exampleStart ++ [Action.offerLive (exampleFrame 1 [98]), .fillResolves ⟨[], false, 9, 0⟩] ++
    exampleSends
  have hframes : ((machine exampleOptions).run (.initial 1) as).map (fun s =>
      (framesOf exampleRun s.offeredLive, framesOf exampleRun (CourseItem.notes (handed s.sink)))) =
      some ([exampleFrame 0 [97], exampleFrame 1 [98]],
        [exampleFrame 1 [98], exampleFrame 0 [97]]) := by decide
  obtain ⟨s, hs, hpair⟩ := Option.map_eq_some_iff.mp hframes
  obtain ⟨hoffered, hhanded⟩ := Prod.mk.inj hpair
  have hsub := (h exampleOptions [exampleEvent 2, exampleEvent 10] 1 as s exampleRun
    (by simp [Ascending, exampleEvent]) (by decide) hs (by rw [hoffered]; decide)).1
  rw [hoffered, hhanded] at hsub
  revert hsub
  decide

/-- Offered when the fill has ended, the second frame goes out second. -/
theorem live_order_run : ∃ s, (machine exampleOptions).run (.initial 1) (exampleStart ++
      [Action.fillResolves ⟨[], false, 9, 0⟩, .offerLive (exampleFrame 1 [98])] ++ exampleSends) = some s ∧
    LiveOrdered exampleOptions [exampleEvent 2, exampleEvent 10] exampleRun s :=
  (machine _).exists_run (by decide) fun _ hs =>
    live_order exampleOptions (by simp [Ascending, exampleEvent]) (by decide) hs

end Opensteer.Realtime
