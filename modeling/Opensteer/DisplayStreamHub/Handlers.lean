import Opensteer.DisplayStreamHub.Audience

/-!
# Every handler

Each handler leaves the viewers in their lanes, hands on nothing that was withheld before
(`Serves`), and keeps the audience's demand (`Follows`). Most of them are `Quiet`; those
that replay the cache hand on frames of it.
-/

namespace Opensteer.DisplayStreamHub

open Opensteer.DisplayStreamHub.Stream

variable {s s' t : Stream} {w : World} {id : Nat} {v v' : Viewer} {sent : List MediaFrame}

/-- What hands nothing on and keeps the audience. -/
structure Steady (s s' : Stream) : Prop where
  quiet : Quiet s s'
  attends : Attends s s'

/-- What a handler does. -/
structure Handled (s s' : Stream) : Prop where
  serves : Relays s → Serves s s'
  follows : Follows s s'

theorem Steady.refl (s : Stream) : Steady s s := ⟨.refl s, .refl s⟩

theorem Steady.trans {m : Stream} (h : Steady s m) (h' : Steady m t) : Steady s t :=
  ⟨h.quiet.trans h'.quiet, h.attends.trans h'.attends⟩

theorem Steady.handled (h : Steady s s') : Handled s s' := ⟨fun hs => hs.serves h.quiet, h.attends.follows⟩

/-- What leaves the viewers and the frames as they are. -/
theorem steady_of_same (hstill : Still s s') (hsent : s'.sent = s.sent) (hended : s'.ended = s.ended)
    (hdemand : s'.demandKey = s.demandKey) (hviewers : s'.viewers = s.viewers) : Steady s s' :=
  ⟨.of_still hstill hsent hended, .of_quiet (.of_still hstill hsent hended) hdemand fun h => hviewers ▸ h⟩

theorem steady_resetInput (s : Stream) : Steady s s.resetInput :=
  ⟨quiet_resetInput s, .of_quiet (quiet_resetInput s) (demandKey_resetInput s) fun h => by
    rwa [viewers_resetInput] at h⟩

theorem steady_demand (w : World) (s : Stream) : Steady s (s.demand w) := ⟨quiet_demand w s, attends_demand w s⟩

theorem steady_viewerLive (w : World) (s : Stream) (id : Nat) : Steady s (s.viewerLive w id).2 :=
  ⟨quiet_viewerLive w s id, attends_viewerLive w s id⟩

theorem steady_setViewer {u : Viewer} (hv : s.viewers.get id = some v) (hstays : v.Stays False u) :
    Steady s (s.setViewer id u) := ⟨quiet_setViewer hv hstays, attends_setViewer hv u⟩

/-- A viewer's other fields change. -/
theorem stays_of_same (hopen : v'.isOpen = true → v.isOpen = true) (hwaiting : v'.waiting = v.waiting)
    (hindex : v'.replayIndex = v.replayIndex) : v.Stays False v' :=
  ⟨hopen, .inr ⟨hwaiting, hindex, fun _ h => h⟩⟩

theorem Handled.quiet (h : Handled s s') (hviewers : s'.viewers.entries = [] → s.viewers.entries = [])
    (hoptions : s'.options = s.options) (h' : Steady s' t) : Handled s t :=
  ⟨fun hs => (h.serves hs).quiet h'.quiet, h.follows.trans hviewers hoptions h'.attends⟩

/-! ## Replays -/

/-- What is handed on of the cache was not withheld. -/
theorem Cached.hands_hands (h : Cached sent s) {frames : List MediaFrame} (hframes : frames ⊆ s.cache) :
    Hands s (s.hands id v frames) := by
  refine ⟨.inr (Nat.le_refl _), _, rfl, fun p hp => ?_⟩
  obtain ⟨frame, hframe, rfl⟩ := List.mem_map.mp hp
  have hmem := hframes hframe
  show s.withheldThrough < frame.generation
  rw [h.generation frame hmem]
  exact h.withheld (List.ne_nil_of_mem hmem)

theorem hands_drainCache (h : Relays s) (w : World) (attempt id : Nat) : Hands s (s.drainCache w attempt id) := by
  unfold Stream.drainCache
  cases hv : s.viewers.get id with
  | none => exact (Quiet.refl s).hands
  | some v =>
    cases hindex : v.replayIndex with
    | none =>
      simp only [hindex]
      exact (Quiet.refl s).hands
    | some index =>
      simp only [hindex]
      split
      · exact (h.cached (h.ended_eq hv)).hands_hands fun frame hframe =>
          List.mem_of_mem_drop ((drain_spec w attempt id _ v hindex).1.subset hframe)
      · exact (quiet_viewerLive w s id).hands

/-- A replay hands on what was not withheld, of the stream's generation. -/
structure Replays (s s' : Stream) : Prop where
  serves : Relays s → Serves s s'
  shows : Relays s → Shows s s'
  attends : Attends s s'

theorem Steady.replays (h : Steady s s') : Replays s s' :=
  ⟨fun hs => hs.serves h.quiet, fun _ => h.quiet.shows, h.attends⟩

theorem Replays.handled (h : Replays s s') : Handled s s' := ⟨h.serves, h.attends.follows⟩

theorem Replays.trans (h : Replays s s') (h' : Replays s' t) : Replays s t where
  serves hs := by
    have hserves := h.serves hs
    have hserves' := h'.serves hserves.relays
    refine ⟨hserves'.relays, .inr ((h.shows hs).withheld_le.trans (h'.shows hserves.relays).withheld_le), ?_⟩
    obtain ⟨new, hnew, hof⟩ := hserves.hands.handed
    obtain ⟨new', hnew', hof'⟩ := hserves'.hands.handed
    refine ⟨new ++ new', by rw [hnew', hnew, List.append_assoc], fun p hp => ?_⟩
    rcases List.mem_append.mp hp with hp | hp
    · exact hof p hp
    · exact (h.shows hs).withheld_le.trans_lt (hof' p hp)
  shows hs := (h.shows hs).trans (h'.shows (h.serves hs).relays)
  attends := h.attends.trans h'.attends

theorem replays_drainCache (w : World) (attempt : Nat) (s : Stream) (id : Nat) :
    Replays s (s.drainCache w attempt id) where
  serves hs := ⟨(relays_drainCache hs w attempt id).1, hands_drainCache hs w attempt id⟩
  shows hs := (relays_drainCache hs w attempt id).2
  attends := attends_drainCache w attempt s id

theorem hands_replay (h : Relays s) (w : World) (id : Nat) : Hands s (s.replay w id) := by
  unfold Stream.replay
  dsimp only
  split
  · exact (quiet_viewerLive w s id).hands
  · split
    · split
      · exact (Quiet.refl s).hands
      · rename_i v last hv hlast _
        obtain ⟨hwithheld, hhanded⟩ := hands_drainCache (relays_startReplay h hv hlast) w 0 id
        exact ⟨hwithheld, hhanded⟩
    · exact (Quiet.refl s).hands

theorem replays_replay (w : World) (s : Stream) (id : Nat) : Replays s (s.replay w id) where
  serves hs := ⟨(relays_replay hs w id).1, hands_replay hs w id⟩
  shows hs := (relays_replay hs w id).2
  attends := attends_replay w s id

/-! ## The handlers -/

theorem steady_removed (hquiet : Quiet s t) (hdemand : t.demandKey = s.demandKey) (w : World) :
    Steady s (let next := t.demand w
      if next.options.target = none ∧ next.viewers.entries.isEmpty then { next with stopping := true } else next) := by
  have hnext : Steady s (t.demand w) := ⟨hquiet.trans (quiet_demand w t), attends_removed hquiet hdemand w⟩
  dsimp only
  split
  · exact hnext.trans (steady_of_same (.of_same rfl rfl rfl rfl rfl rfl rfl rfl rfl) rfl rfl rfl rfl)
  · exact hnext

theorem steady_leaves (w : World) (s : Stream) (id : Nat) : Steady s (s.leaves w id) := by
  unfold Stream.leaves
  split
  · exact .refl s
  · exact steady_removed (quiet_removeViewer s id) (demandKey_removeViewer s id) w

theorem steady_sourceChanged (w : World) (s : Stream) (source : DisplaySource) :
    Steady s (s.sourceChanged w source) :=
  steady_removed (quiet_withoutSource s source) (demandKey_withoutSource s source) w

theorem steady_inputAuthorization (w : World) (s : Stream) (id : Nat) (authorized : Bool) :
    Steady s (s.inputAuthorization w id authorized) := by
  unfold Stream.inputAuthorization
  split
  · exact .refl s
  · rename_i v hv
    split
    · exact .refl s
    · refine (steady_setViewer (u := { v with authorized }) hv (stays_of_same (fun h => h) rfl rfl)).trans ?_
      refine Steady.trans ?_ (steady_demand w _)
      split
      · exact steady_resetInput _
      · exact .refl _

theorem steady_withdrawOwnerInput (w : World) (s : Stream) : Steady s (s.withdrawOwnerInput w) := by
  unfold Stream.withdrawOwnerInput
  generalize (s.viewers.entries.filter fun e => e.2.source.isOwnerView).map Prod.fst = ids
  induction ids generalizing s with
  | nil => exact .refl s
  | cons id ids ih => exact (steady_inputAuthorization w s id false).trans (ih _)

theorem replays_keyframe (w : World) (hv : s.viewers.get id = some v) : Replays s (s.keyframe w id v) := by
  unfold Stream.keyframe
  split
  · exact (Steady.refl s).replays
  · generalize displayGopCacheFrames + _ = limit
    split
    · exact (steady_setViewer (u := { v with isOpen := false }) hv
        (stays_of_same (fun h => nomatch h) rfl rfl)).replays
    · refine Replays.trans ?_ (replays_replay w _ id)
      exact (steady_setViewer (u := { v with
        discarded := v.discarded ++ v.outstanding.keys, outstanding := .empty, bytes := 0
        replayIndex := none, replayThrough := none, waiting := true }) hv
        ⟨fun h => h, .inl ⟨rfl, rfl⟩⟩).replays

theorem replays_ack (w : World) (hv : s.viewers.get id = some v) (sequence : Nat) :
    Replays s (s.ack w id v sequence) := by
  unfold Stream.ack
  split
  · rename_i first discarded _
    split
    · exact (steady_setViewer (u := { v with discarded }) hv
        (stays_of_same (fun h => h) rfl rfl)).replays.trans (replays_drainCache w 0 _ id)
    · exact (Steady.refl s).replays
  · split
    · exact (Steady.refl s).replays
    · dsimp only
      have hdemand : Steady s (if v.displayWindow && w.rebudgets then s.demand w else s) ∧
          (if v.displayWindow && w.rebudgets then s.demand w else s).viewers = s.viewers := by
        split
        · refine ⟨steady_demand w s, viewers_demand w fun hnil => ?_⟩
          rw [OrderedMap.entries_eq_nil_iff.mp hnil] at hv
          cases hv
        · exact ⟨.refl s, rfl⟩
      generalize (if v.displayWindow && w.rebudgets then s.demand w else s) = s₁ at hdemand
      obtain ⟨hdemand, hviewers⟩ := hdemand
      have hacknowledged : Steady s₁ (s₁.setViewer id (v.acknowledge sequence)) :=
        steady_setViewer (v := v) (by rw [hviewers]; exact hv) (stays_of_same (fun h => h) rfl rfl)
      refine (hdemand.trans hacknowledged).replays.trans (Replays.trans ?_ (replays_drainCache w 1 _ id))
      split
      · exact replays_replay w _ id
      · exact (Steady.refl _).replays

theorem steady_power (hv : s.viewers.get id = some v) (sequence : Nat) (lock : Bool) :
    Steady s (s.power id v sequence lock) := by
  unfold Stream.power
  split
  · exact .refl s
  · have hset : Steady s (s.setViewer id { v with inputSequence := sequence }) :=
      steady_setViewer hv (stays_of_same (fun h => h) rfl rfl)
    refine hset.trans ?_
    dsimp only
    split
    · exact .refl _
    · refine Steady.trans (m := if lock then _ else _) ?_
        (steady_of_same (.of_same rfl rfl rfl rfl rfl rfl rfl rfl rfl) rfl rfl rfl rfl)
      split
      · exact steady_resetInput _
      · exact .refl _

theorem steady_input (hv : s.viewers.get id = some v) (sequence geometry : Nat)
    (events : List DisplayInputEvent) : Steady s (s.input id v sequence geometry events) := by
  unfold Stream.input
  split
  · exact .refl s
  · have hset : Steady s (s.setViewer id { v with inputSequence := sequence }) :=
      steady_setViewer hv (stays_of_same (fun h => h) rfl rfl)
    refine hset.trans ?_
    dsimp only
    split
    · exact .refl _
    · exact steady_of_same (.of_same rfl rfl rfl rfl rfl rfl rfl rfl rfl) rfl rfl rfl rfl

theorem replays_viewerMessage (w : World) (s : Stream) (id : Nat) (message : ClientMessage) :
    Replays s (s.viewerMessage w id message) := by
  unfold Stream.viewerMessage
  cases hv : s.viewers.get id with
  | none => exact (Steady.refl s).replays
  | some v =>
    dsimp only
    split
    · exact (Steady.refl s).replays
    split
    · exact (steady_viewerLive w s id).replays
    cases message with
    | keyframe => exact replays_keyframe w hv
    | ack sequence => exact replays_ack w hv sequence
    | power sequence lock => exact (steady_power hv sequence lock).replays
    | inputReset =>
      dsimp only
      split
      · exact (steady_resetInput s).replays
      · exact (Steady.refl s).replays
    | input sequence geometry events controlled =>
      dsimp only
      split
      · exact (Steady.refl s).replays
      · exact (steady_input hv sequence geometry events).replays

theorem steady_pending (s : Stream) (pending : OrderedMap Nat PendingInput) : Steady s { s with pending } :=
  steady_of_same (.of_same rfl rfl rfl rfl rfl rfl rfl rfl rfl) rfl rfl rfl rfl

theorem steady_inputEvent (w : World) (s : Stream) (sequence : Nat) (receipt : Receipt) (geometry : Option Nat)
    (source : Option DisplaySource) : Steady s (s.inputEvent w sequence receipt geometry source) := by
  unfold Stream.inputEvent
  split
  · exact .refl s
  · dsimp only
    have hreset : Steady s (if receipt = .result false ∧ s.holderSequence = sequence ∧
        (s.holder.any fun holder => source.all fun source => sameSource source holder.source) = true then
        s.resetInput else s) := by
      split
      · exact steady_resetInput s
      · exact .refl s
    generalize (if receipt = .result false ∧ s.holderSequence = sequence ∧
      (s.holder.any fun holder => source.all fun source => sameSource source holder.source) = true then
      s.resetInput else s) = s₁ at hreset
    refine hreset.trans ?_
    split
    · exact .refl s₁
    · rename_i pending _
      split
      · exact .refl s₁
      · split
        · exact steady_pending s₁ _
        · split
          · exact steady_pending s₁ _
          · split
            · exact (steady_viewerLive w s₁ _).trans (steady_pending _ _)
            · cases receipt with
              | result dispatched =>
                dsimp only
                split
                · exact .refl s₁
                · split <;> exact steady_pending s₁ _
              | clipboard cut =>
                dsimp only
                split
                · exact .refl s₁
                · split <;> exact steady_pending s₁ _

theorem steady_powerResult (s : Stream) (sequence : Nat) (source : DisplaySource) :
    Steady s (s.powerResult sequence source) := by
  unfold Stream.powerResult
  split
  · exact .refl s
  · split
    · exact steady_of_same (.of_same rfl rfl rfl rfl rfl rfl rfl rfl rfl) rfl rfl rfl rfl
    · exact .refl s

/-! ## A viewer that comes -/

/-- The stream with a viewer more. -/
def Stream.admits (s : Stream) (v : Viewer) : Stream := { s with
  stopping := false
  viewers := s.viewers.set s.admitted v
  admitted := s.admitted + 1
  authorities := s.authorities.set v.source.key (v.source, v.actor) }

theorem attaches_eq (w : World) (s : Stream) (v : Viewer) :
    s.attaches w v = ((s.admits v).demand w).replay w s.admitted := rfl

theorem serves_admits (h : Relays s) (hs : s.ended = false) (hwaiting : v.waiting = true)
    (hnone : v.replayIndex = none) : Serves s (s.admits v) := by
  refine ⟨⟨fun hs' => ?_, fun hs' => (nomatch hs.symm.trans hs'), fun id u hu hopen => ?_, h.decodable⟩,
    hands_of_eq (.inr (Nat.le_refl _)) rfl⟩
  · have hcached := h.cached hs'
    exact ⟨hcached.suffix, hcached.key, hcached.generation, hcached.withheld, hcached.current⟩
  · simp only [Stream.admits, OrderedMap.get_set] at hu
    split at hu
    · obtain rfl := Option.some.inj hu
      exact .waits hwaiting hnone
    · cases h.lanes id u hu hopen with
      | waits hwaiting hnone => exact .waits hwaiting hnone
      | replays index hindex hwaiting hcache hle hlast => exact .replays index hindex hwaiting hcache hle hlast
      | follows last hwaiting hnone hlast hsent hgeneration hmedia hkey =>
        exact .follows last hwaiting hnone hlast hsent hgeneration hmedia hkey

theorem serves_attaches (h : Relays s) (hs : s.ended = false) (w : World) (hwaiting : v.waiting = true)
    (hnone : v.replayIndex = none) : Serves s (s.attaches w v) := by
  rw [attaches_eq]
  obtain ⟨hrelays, hwithheld, hhanded⟩ := serves_admits h hs hwaiting hnone
  obtain ⟨hrelays', hwithheld', hhanded'⟩ :=
    ((steady_demand w (s.admits v)).replays.trans (replays_replay w _ s.admitted)).serves hrelays
  exact ⟨hrelays', hwithheld', hhanded'⟩

/-- Even the viewer that came may be the last that goes. -/
theorem attended_attaches (h : Attended s) (w : World) (v : Viewer) : Attended (s.attaches w v) ∧
    ((s.attaches w v).viewers.entries = [] → s.options.target = none → Dark (s.attaches w v)) := by
  rw [attaches_eq]
  have hne : (s.admits v).viewers.entries ≠ [] := entries_set_ne_nil _ _ _
  have hattended : Attended ((s.admits v).demand w) := by
    refine attended_demand ?_ w
    exact h.asked
  have hreplay := attends_replay w ((s.admits v).demand w) s.admitted
  refine ⟨hreplay.attended hattended, fun hnil htarget => hreplay.emptied hattended ?_ hnil ?_⟩
  · rw [viewers_demand w hne]
    exact hne
  · rw [(quiet_demand w _).options]
    exact htarget

/-! ## A step -/

/-- A viewer comes. -/
def Stream.Action.comes : Action → Bool
  | .attaches .. => true
  | _ => false

/-- What each handler but the one for a viewer that comes does. -/
theorem handled_act (s : Stream) (hs : s.ended = false) (hattended : Attended s) {action : Action}
    (h : action.comes = false) : Handled s (s.act action) := by
  cases action with
  | media w frame =>
    refine ⟨fun hrelays => serves_media hrelays hs w frame fun htarget hnil => ?_, follows_media w s frame⟩
    rcases hattended with hended | hidle
    · exact nomatch hs.symm.trans hended
    · exact hidle.1 htarget hnil
  | phoneState w event => exact ⟨fun hrelays => serves_phoneState hrelays w event, follows_phoneState w s event⟩
  | attaches => cases h
  | leaves w id => exact (steady_leaves w s id).handled
  | socketCloses id =>
    exact Steady.handled ⟨quiet_modify s id fun v => stays_of_same (fun h => nomatch h) rfl rfl, attends_modify s id _⟩
  | viewerMessage w id message => exact (replays_viewerMessage w s id message).handled
  | inputEvent w sequence receipt geometry source => exact (steady_inputEvent w s sequence receipt geometry source).handled
  | powerResult sequence source => exact (steady_powerResult s sequence source).handled
  | sourceChanged w source => exact (steady_sourceChanged w s source).handled
  | endsSource w source => exact Steady.handled ⟨quiet_endSource w s source, attends_endSource w s source⟩
  | authorizes w id authorized => exact (steady_inputAuthorization w s id authorized).handled
  | withdrawsOwnerInput w => exact (steady_withdrawOwnerInput w s).handled
  | rechecks w id => exact (steady_viewerLive w s id).handled
  | demands w reset =>
    have hreset : Handled s (if reset then { s with demandKey := none } else s) ∧
        (if reset then { s with demandKey := none } else s).viewers = s.viewers ∧
        (if reset then { s with demandKey := none } else s).options = s.options := by
      split
      · refine ⟨⟨fun hrelays => hrelays.serves (.of_still (.of_same rfl rfl rfl rfl rfl rfl rfl rfl rfl) rfl rfl),
          ⟨fun _ => ?_, fun _ hne hnil => absurd hnil hne⟩⟩, rfl, rfl⟩
        exact hattended.imp_right fun h => ⟨h.1, fun _ _ hkey => nomatch hkey⟩
      · exact ⟨(Steady.refl s).handled, rfl, rfl⟩
    obtain ⟨hhandled, hviewers, hoptions⟩ := hreset
    exact hhandled.quiet (fun hnil => hviewers ▸ hnil) hoptions (steady_demand w _)
  | failsCapture w reason =>
    obtain ⟨hhanded, hsent, hnil⟩ := failCapture_over w s reason hs
    have hended := failCapture_ended w s reason
    refine ⟨fun hrelays => ⟨relays_of_over hended hnil fun id => ?_, hands_of_eq (.inl hended) hhanded⟩,
      follows_of_ended hended⟩
    show Decodable _ _ (s.failCapture w reason).sent ((s.failCapture w reason).handedTo id)
    rw [hsent, handedTo_eq hhanded]
    exact hrelays.decodable id
  | ends terminal => exact Steady.handled ⟨quiet_finish s terminal, attends_finish s terminal⟩

end Opensteer.DisplayStreamHub
