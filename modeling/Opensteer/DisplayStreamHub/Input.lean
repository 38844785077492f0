import Opensteer.DisplayStreamHub.Holder

/-!
# One holder of the display

The holder of a display is there, may give input, and the display is live in the stream's
generation (`Seated`, `Dated`). With it, over every run, nothing is held from anybody but
the holder, and nothing when there is none (`one_holder`).
-/

namespace Opensteer.DisplayStreamHub

open Opensteer.DisplayStreamHub.Stream

variable {s s' t : Stream} {w : World} {id : Nat} {v v' : Viewer} {sender : Sender} {frame : MediaFrame}
  {sent : List MediaFrame}

/-- The holder may give input to a display that is live. -/
structure Seated (s : Stream) : Prop where
  held : Held s
  present : ∀ sender, s.holder = some sender →
    ∃ v, s.viewers.get sender.viewer = some v ∧ v.source = sender.source ∧ s.inputAvailable v = true
  live : ∀ sender, s.holder = some sender → s.state.state = .live

/-- The stream's state is of its generation, and no later one is withheld. -/
def Dated (s : Stream) : Prop :=
  s.ended = true ∨ (s.state.generation = s.generation ∧ s.withheldThrough ≤ s.generation)

theorem inputAvailable_keeps (h : s.inputAvailable v = true) (hkeeps : v.Keeps v') (hoptions : s'.options = s.options) :
    s'.inputAvailable v' = true := by
  unfold Stream.inputAvailable at h ⊢
  rw [Bool.and_eq_true, Bool.and_eq_true] at h
  rw [hkeeps.sharedInput, hkeeps.source, hkeeps.phoneOwnerControl, hkeeps.authorized h.1.2, hoptions,
    Bool.and_eq_true, Bool.and_eq_true]
  exact ⟨⟨h.1.1, rfl⟩, h.2⟩

theorem Seated.frees (h : Seated s) (hfrees : Frees s s') : Seated s' where
  held := hfrees.held h.held
  present sender hholder := by
    obtain ⟨v, hv, hsource, havailable⟩ := h.present sender (hfrees.holder_eq hholder)
    obtain ⟨v', hv', hkeeps⟩ := hfrees.present sender v hholder hv hsource
    exact ⟨v', hv', hkeeps.source.trans hsource, inputAvailable_keeps havailable hkeeps hfrees.options⟩
  live sender hholder := by
    rcases hfrees.live sender hholder with heq | hlive
    · rw [heq]
      exact h.live sender (hfrees.holder_eq hholder)
    · exact hlive

theorem Dated.lets (h : Dated s) (hlets : Lets s s') (hshows : Shows s s') : Dated s' := by
  rcases h with hended | ⟨hdate, hle⟩
  · exact .inl (hlets.ended hended)
  · refine hlets.generation.imp_right fun heq => ⟨heq.trans (hdate.trans hshows.generation.symm), ?_⟩
    rw [hshows.generation]
    exact hshows.withheld_bound.trans (max_le hle (Nat.le_refl _))

/-! ## Media and states -/

theorem frees_of_same (hoptions : s'.options = s.options) (hholder : s'.holder = s.holder) (hheld : s'.held = s.held)
    (htoPhone : s'.toPhone = s.toPhone) (hended : s'.ended = s.ended) (hstate : s'.state = s.state)
    (hviewers : s'.viewers = s.viewers) (hadmitted : s'.admitted = s.admitted) : Frees s s' :=
  (Lets.of_same hoptions hholder hheld htoPhone (fun h => hended.trans h) hstate
    (fun hfresh id v hv => hadmitted ▸ hfresh id v (hviewers ▸ hv))
    fun _ v hv => ⟨v, hviewers ▸ hv, .refl v⟩).toFrees

theorem frees_wait (s : Stream) : Frees s (s.clearCache.mapViewers Viewer.wait) :=
  ((lets_clearCache s).trans (lets_mapViewers _ (f := Viewer.wait) fun _ => ⟨rfl, rfl, rfl, fun h => h⟩)).toFrees

/-- A frame that is shown makes its generation's state the stream's. -/
theorem publish_frees (w : World) (s : Stream) (frame : MediaFrame) : Frees s (s.publish w frame) ∧
    ((s.publish w frame).ended = true ∨ (s.publish w frame).state.generation = frame.generation) := by
  unfold Stream.publish
  dsimp only
  have hkeyed : Frees s (if frame.key then { s with firstKey := true } else s) := by
    split
    · exact frees_of_same rfl rfl rfl rfl rfl rfl rfl rfl
    · exact (Lets.refl s).toFrees
  generalize (if frame.key then { s with firstKey := true } else s) = s₁ at hkeyed
  have hlive : Frees s₁ (if s₁.state.state ≠ .live ∨ s₁.state.generation ≠ frame.generation then
        s₁.publishState ⟨.live, frame.generation, frame.width, frame.height, none⟩ else s₁) ∧
      (if s₁.state.state ≠ .live ∨ s₁.state.generation ≠ frame.generation then
        s₁.publishState ⟨.live, frame.generation, frame.width, frame.height, none⟩ else s₁).state.generation =
          frame.generation := by
    split
    · exact ⟨frees_publishState s₁ _, by rw [state_publishState]⟩
    · rename_i hsame
      rw [not_or, not_not, not_not] at hsame
      exact ⟨(Lets.refl s₁).toFrees, hsame.2⟩
  generalize (if s₁.state.state ≠ .live ∨ s₁.state.generation ≠ frame.generation then
    s₁.publishState ⟨.live, frame.generation, frame.width, frame.height, none⟩ else s₁) = s₂ at hlive
  obtain ⟨hlive, hdate⟩ := hlive
  have hcleared : Lets s₂ (if frame.key then s₂.clearCache else s₂) := by
    split
    · exact lets_clearCache s₂
    · exact .refl s₂
  generalize (if frame.key then s₂.clearCache else s₂) = s₃ at hcleared
  have hrest := hcleared.trans ((lets_cacheFrame s₃ frame).trans
    (Lets.foldl (lets_deliver w frame) (s₃.cacheFrame frame).viewers.keys _))
  exact ⟨hkeyed.trans (hlive.trans hrest.toFrees), hrest.generation.imp_right fun heq => heq.trans hdate⟩

theorem frees_receives (s : Stream) (frame : MediaFrame) : Frees s (s.receives frame) :=
  frees_of_same rfl rfl rfl rfl rfl rfl rfl rfl

theorem frees_advances (s : Stream) (frame : MediaFrame) : Frees s (s.advances frame) :=
  (frees_wait s).trans (frees_of_same rfl rfl rfl rfl rfl rfl rfl rfl)

/-- A frame that is shown, of a stream that is at its generation. -/
theorem dated_publish (hrelayed : Relayed sent (fun _ => sent) s) (hgeneration : s.generation = frame.generation)
    (hmedia : s.mediaGeneration = frame.generation) (hshown : s.withheldThrough < frame.generation) (w : World) :
    Dated (s.publish w frame) := by
  obtain ⟨-, hshows⟩ := relayed_publish hrelayed hgeneration hmedia (hgeneration ▸ hshown) w
  refine (publish_frees w s frame).2.imp_right fun heq => ⟨?_, ?_⟩
  · rw [heq, hshows.generation, hgeneration]
  · have hbound := hshows.withheld_bound
    rw [hshows.generation]
    omega

theorem frees_media (h : Relays s) (hs : s.ended = false) (hdated : Dated s) (w : World) (frame : MediaFrame) :
    Frees s (s.media w frame) ∧ Dated (s.media w frame) := by
  have hdate := hdated.resolve_left (by simp [hs])
  have hsent : Frees s { s with sent := s.sent ++ [frame] } := frees_of_same rfl rfl rfl rfl rfl rfl rfl rfl
  have hmedia := receives_media w s frame
  generalize s.media w frame = s' at hmedia
  cases hmedia with
  | fails => exact ⟨hsent.trans (frees_failCapture w _ _), .inl (failCapture_ended _ _ _)⟩
  | ends => exact ⟨hsent.trans (lets_finish _ _).toFrees, .inl (ended_finish _ _)⟩
  | unviewed => exact ⟨hsent, .inr hdate⟩
  | unkeyed => exact ⟨frees_receives s frame, .inr hdate⟩
  | advances _ hshown =>
    exact ⟨(frees_advances s frame).trans (publish_frees w _ frame).1,
      dated_publish (relayed_advances hs frame h.decodable) rfl rfl hshown w⟩
  | skips hnewer hwithheld =>
    -- Nothing is withheld of a generation that did not start.
    omega
  | publishes hgeneration hshown =>
    exact ⟨(frees_receives s frame).trans (publish_frees w _ frame).1,
      dated_publish (Relayed.received h hgeneration) hgeneration.symm rfl hshown w⟩
  | withheld => exact ⟨(frees_receives s frame).trans (frees_wait _), .inr hdate⟩
  | older => exact ⟨frees_receives s frame, .inr hdate⟩

theorem frees_phoneState (hdated : Dated s) (hs : s.ended = false) (w : World) (event : DisplayViewerState) :
    Frees s (s.phoneState w event) ∧ Dated (s.phoneState w event) := by
  have hdate := hdated.resolve_left (by simp [hs])
  unfold Stream.phoneState
  split
  · exact ⟨(Lets.refl s).toFrees, hdated⟩
  rename_i hcurrent
  split
  · exact ⟨(Lets.refl s).toFrees, hdated⟩
  split
  · exact ⟨(lets_finish s false).toFrees, .inl (ended_finish _ _)⟩
  dsimp only
  have hcleared : Frees s (if event.generation ≠ s.generation ∨ event.state ≠ .live then
      s.clearCache.mapViewers Viewer.wait else s) ∧
      (if event.generation ≠ s.generation ∨ event.state ≠ .live then
        s.clearCache.mapViewers Viewer.wait else s).withheldThrough = s.withheldThrough := by
    split
    · exact ⟨frees_wait s, rfl⟩
    · exact ⟨(Lets.refl s).toFrees, rfl⟩
  generalize (if event.generation ≠ s.generation ∨ event.state ≠ .live then
    s.clearCache.mapViewers Viewer.wait else s) = s₁ at hcleared
  obtain ⟨hcleared, hwithheld⟩ := hcleared
  have hmarked : Frees s₁ { (if event.state.withholds then
      { s₁ with withheldThrough := max s₁.withheldThrough event.generation } else s₁ : Stream) with
        generation := event.generation } ∧
      ({ (if event.state.withholds then
        { s₁ with withheldThrough := max s₁.withheldThrough event.generation } else s₁ : Stream) with
          generation := event.generation } : Stream).withheldThrough ≤ event.generation := by
    split
    · exact ⟨frees_of_same rfl rfl rfl rfl rfl rfl rfl rfl, max_le (by omega) (Nat.le_refl _)⟩
    · exact ⟨frees_of_same rfl rfl rfl rfl rfl rfl rfl rfl, show s₁.withheldThrough ≤ event.generation by omega⟩
  have hgeneration : ({ (if event.state.withholds then
    { s₁ with withheldThrough := max s₁.withheldThrough event.generation } else s₁ : Stream) with
      generation := event.generation } : Stream).generation = event.generation := rfl
  generalize ({ (if event.state.withholds then
    { s₁ with withheldThrough := max s₁.withheldThrough event.generation } else s₁ : Stream) with
      generation := event.generation } : Stream) = s₂ at hmarked hgeneration
  obtain ⟨hmarked, hle⟩ := hmarked
  have hpublished := hcleared.trans (hmarked.trans (frees_publishState s₂ event))
  split
  · refine ⟨hpublished.trans (Frees.trans ?_ (lets_finish _ true).toFrees), .inl (ended_finish _ _)⟩
    split
    · exact (lets_failOwnerSources w _).toFrees
    · exact (Lets.refl _).toFrees
  · refine ⟨hpublished, .inr ⟨?_, ?_⟩⟩
    · rw [state_publishState, (quiet_publishState s₂ event).generation, hgeneration]
    · rw [withheldThrough_publishState, (quiet_publishState s₂ event).generation, hgeneration]
      exact hle

/-! ## The other handlers -/

theorem lets_ignored (hoptions : s'.options = s.options) (hholder : s'.holder = s.holder) (hheld : s'.held = s.held)
    (htoPhone : s'.toPhone = s.toPhone) (hended : s'.ended = s.ended) (hstate : s'.state = s.state)
    (hviewers : s'.viewers = s.viewers) (hadmitted : s'.admitted = s.admitted) : Lets s s' :=
  .of_same hoptions hholder hheld htoPhone (fun h => hended.trans h) hstate
    (fun hfresh id v hv => hadmitted ▸ hfresh id v (hviewers ▸ hv)) fun _ v hv => ⟨v, hviewers ▸ hv, .refl v⟩

theorem lets_removed (h : Lets s t) (w : World) : Lets s (let next := t.demand w
    if next.options.target = none ∧ next.viewers.entries.isEmpty then { next with stopping := true } else next) := by
  have hnext := h.trans (lets_demand w t)
  dsimp only
  split
  · exact hnext.trans (lets_ignored rfl rfl rfl rfl rfl rfl rfl rfl)
  · exact hnext

theorem lets_leaves (w : World) (s : Stream) (id : Nat) : Lets s (s.leaves w id) := by
  unfold Stream.leaves
  split
  · exact .refl s
  · exact lets_removed (lets_removeViewer s id) w

theorem lets_sourceChanged (w : World) (s : Stream) (source : DisplaySource) : Lets s (s.sourceChanged w source) :=
  lets_removed (lets_withoutSource s source) w

/-- A viewer that loses its authority lets go what it holds. -/
theorem lets_inputAuthorization (w : World) (s : Stream) (id : Nat) (authorized : Bool) :
    Lets s (s.inputAuthorization w id authorized) := by
  unfold Stream.inputAuthorization
  split
  · exact .refl s
  · rename_i v hv
    split
    · exact .refl s
    · rename_i hchanges
      have hset : Fresh s → Fresh (s.setViewer id { v with authorized }) := fun hfresh other u hu => by
        simp only [setViewer, OrderedMap.get_set] at hu
        split at hu
        · rename_i heq
          exact hfresh other v (heq ▸ hv)
        · exact hfresh other u hu
      refine Lets.trans ?_ (lets_demand w _)
      split
      · have hreset := lets_resetInput (s.setViewer id { v with authorized })
        refine ⟨⟨hreset.options, fun h => ?_, .inr (holder_resetInput _), fun sender _ h => ?_, hreset.ended,
          hreset.live, hreset.dated, fun hfresh => hreset.fresh (hset hfresh)⟩, hreset.generation⟩
        · exact Held.reset ⟨h.empty, h.sent, fun sender h' => h.named sender h', h.alone⟩
        · cases (holder_resetInput _).symm.trans h
      · rename_i hkeeps
        refine ⟨⟨rfl, fun h => ⟨h.empty, h.sent, fun sender h' => h.named sender h', h.alone⟩, .inl rfl,
          fun sender u hsender hu hsource => ?_, fun h => h, fun _ _ => .inl rfl, fun _ _ => rfl, hset⟩,
          .inr rfl⟩
        show ∃ v', (s.viewers.set id { v with authorized }).get sender.viewer = some v' ∧ u.Keeps v'
        rw [OrderedMap.get_set]
        split
        · rename_i heq
          subst heq
          obtain rfl := Option.some.inj (hv.symm.trans hu)
          refine ⟨_, rfl, rfl, rfl, rfl, fun _ => ?_⟩
          have hholder : s.holder = some (v.sender sender.viewer) := by
            rw [Viewer.sender, hsource]
            exact hsender
          simpa [setViewer, hholder] using hkeeps
        · exact ⟨u, hu, .refl u⟩

theorem lets_withdrawOwnerInput (w : World) (s : Stream) : Lets s (s.withdrawOwnerInput w) :=
  Lets.foldl (fun s id => lets_inputAuthorization w s id false) _ s

theorem lets_keyframe (w : World) (hv : s.viewers.get id = some v) : Lets s (s.keyframe w id v) := by
  unfold Stream.keyframe
  split
  · exact .refl s
  · generalize displayGopCacheFrames + _ = limit
    split
    · exact lets_setViewer (u := { v with isOpen := false }) hv ⟨rfl, rfl, rfl, fun h => h⟩
    · refine Lets.trans ?_ (lets_replay w _ id)
      exact lets_setViewer (u := { v with
        discarded := v.discarded ++ v.outstanding.keys, outstanding := .empty, bytes := 0
        replayIndex := none, replayThrough := none, waiting := true }) hv ⟨rfl, rfl, rfl, fun h => h⟩

theorem lets_ack (w : World) (hv : s.viewers.get id = some v) (sequence : Nat) : Lets s (s.ack w id v sequence) := by
  unfold Stream.ack
  split
  · rename_i first discarded _
    split
    · exact (lets_setViewer (u := { v with discarded }) hv ⟨rfl, rfl, rfl, fun h => h⟩).trans
        (lets_drainCache w 0 _ id)
    · exact .refl s
  · split
    · exact .refl s
    · dsimp only
      have hdemand : Lets s (if v.displayWindow && w.rebudgets then s.demand w else s) ∧
          (if v.displayWindow && w.rebudgets then s.demand w else s).viewers = s.viewers := by
        split
        · refine ⟨lets_demand w s, viewers_demand w fun hnil => ?_⟩
          rw [OrderedMap.entries_eq_nil_iff.mp hnil] at hv
          cases hv
        · exact ⟨.refl s, rfl⟩
      generalize (if v.displayWindow && w.rebudgets then s.demand w else s) = s₁ at hdemand
      obtain ⟨hdemand, hviewers⟩ := hdemand
      have hacknowledged : Lets s₁ (s₁.setViewer id (v.acknowledge sequence)) :=
        lets_setViewer (v := v) (by rw [hviewers]; exact hv) ⟨rfl, rfl, rfl, fun h => h⟩
      refine (hdemand.trans hacknowledged).trans (Lets.trans ?_ (lets_drainCache w 1 _ id))
      split
      · exact lets_replay w _ id
      · exact .refl _

theorem lets_power (hv : s.viewers.get id = some v) (sequence : Nat) (lock : Bool) :
    Lets s (s.power id v sequence lock) := by
  unfold Stream.power
  split
  · exact .refl s
  · have hset : Lets s (s.setViewer id { v with inputSequence := sequence }) :=
      lets_setViewer hv ⟨rfl, rfl, rfl, fun h => h⟩
    refine hset.trans ?_
    dsimp only
    split
    · exact .refl _
    · refine Lets.trans ?_ (lets_send _ (m := .power _ _ _) rfl)
      refine Lets.trans (m := if lock then _ else _) ?_ (lets_ignored rfl rfl rfl rfl rfl rfl rfl rfl)
      split
      · exact lets_resetInput _
      · exact .refl _

theorem lets_pending (s : Stream) (pending : OrderedMap Nat PendingInput) : Lets s { s with pending } :=
  lets_ignored rfl rfl rfl rfl rfl rfl rfl rfl

theorem lets_inputEvent (w : World) (s : Stream) (sequence : Nat) (receipt : Receipt) (geometry : Option Nat)
    (source : Option DisplaySource) : Lets s (s.inputEvent w sequence receipt geometry source) := by
  unfold Stream.inputEvent
  split
  · exact .refl s
  · dsimp only
    have hreset : Lets s (if receipt = .result false ∧ s.holderSequence = sequence ∧
        (s.holder.any fun holder => source.all fun source => sameSource source holder.source) = true then
        s.resetInput else s) := by
      split
      · exact lets_resetInput s
      · exact .refl s
    generalize (if receipt = .result false ∧ s.holderSequence = sequence ∧
      (s.holder.any fun holder => source.all fun source => sameSource source holder.source) = true then
      s.resetInput else s) = s₁ at hreset
    refine hreset.trans ?_
    split
    · exact .refl s₁
    · rename_i pending _
      split
      · exact .refl s₁
      · split
        · exact lets_pending s₁ _
        · split
          · exact lets_pending s₁ _
          · split
            · exact (lets_viewerLive w s₁ _).trans (lets_pending _ _)
            · cases receipt with
              | result dispatched =>
                dsimp only
                split
                · exact .refl s₁
                · split <;> exact lets_pending s₁ _
              | clipboard cut =>
                dsimp only
                split
                · exact .refl s₁
                · split <;> exact lets_pending s₁ _

theorem lets_powerResult (s : Stream) (sequence : Nat) (source : DisplaySource) :
    Lets s (s.powerResult sequence source) := by
  unfold Stream.powerResult
  split
  · exact .refl s
  · split
    · exact lets_ignored rfl rfl rfl rfl rfl rfl rfl rfl
    · exact .refl s

/-- A viewer that comes takes nobody's place. -/
theorem lets_attaches (hfresh : Fresh s) (w : World) (v : Viewer) : Lets s (s.attaches w v) := by
  rw [attaches_eq]
  have hadmits : Lets s (s.admits v) := by
    refine .of_same rfl rfl rfl rfl (fun h => h) rfl (fun _ other u hu => ?_) fun other u hu => ⟨u, ?_, .refl u⟩
    · simp only [Stream.admits, OrderedMap.get_set] at hu ⊢
      split at hu
      · omega
      · exact (hfresh other u hu).trans (Nat.lt_succ_self _)
    · have hlt := hfresh other u hu
      simp only [Stream.admits, OrderedMap.get_set]
      rw [if_neg (by omega)]
      exact hu
  exact hadmits.trans ((lets_demand w _).trans (lets_replay w _ _))

/-! ## A viewer's input -/

/-- The message names the source of whoever may give input. -/
theorem names_inputName (h : s.inputAvailable v = true) : (s.inputName v.source).names v.source = true := by
  unfold Stream.inputAvailable at h
  rw [Bool.and_eq_true] at h
  obtain ⟨-, htarget⟩ := h
  unfold Stream.inputName
  split
  · simp [SourceName.names]
  · rename_i hno
    split
    · simp [SourceName.names]
    · rename_i hphone
      cases hsource : v.source with
      | taskSession => simp [SourceName.names]
      | ownerView =>
        exfalso
        cases htargets : s.options.target with
        | none => simp [htargets, hsource, hphone, DisplaySource.isOwnerView] at htarget
        | some target => simp [htargets, hsource, DisplaySource.isOwnerView] at hno

theorem refusal_eq_none {geometry : Nat} {events : List DisplayInputEvent} (h : s.refusal id v geometry events = none) :
    s.inputAvailable v = true ∧ s.state.state = .live ∧ geometry = s.generation ∧
      ∀ holder, s.holder = some holder → holder = v.sender id := by
  unfold Stream.refusal at h
  dsimp only at h
  split at h
  · cases h
  rename_i hlive
  split at h
  · cases h
  rename_i hgeometry
  split at h
  · cases h
  rename_i hholder
  rw [Bool.not_eq_true, Bool.or_eq_false_iff] at hlive
  refine ⟨by simpa using hlive.1, by simpa using hlive.2, by simpa using hgeometry, fun holder heq => ?_⟩
  simpa [heq] using hholder

/-- The stream after a viewer's events were sent. -/
def Stream.inputs (s : Stream) (id : Nat) (v : Viewer) (geometry : Nat) (events : List DisplayInputEvent)
    (pending : OrderedMap Nat PendingInput) : Stream :=
  let held := events.foldl trackHeldDisplayInput s.held
  { s with
    inputSequence := s.inputSequence + 1
    pending := pending
    held := held
    holder := if held = ∅ then none else some (v.sender id)
    holderSequence := s.inputSequence }.send
      (.input (v.sender id) (s.inputName v.source) geometry s.inputSequence events)

/-- What `display.input` does. -/
theorem input_cases (s : Stream) (id : Nat) (v : Viewer) (sequence geometry : Nat)
    (events : List DisplayInputEvent) : s.input id v sequence geometry events = s ∨
    s.input id v sequence geometry events = s.setViewer id { v with inputSequence := sequence } ∨
    ((s.setViewer id { v with inputSequence := sequence }).refusal id v geometry events = none ∧
      ∃ pending, s.input id v sequence geometry events =
        (s.setViewer id { v with inputSequence := sequence }).inputs id v geometry events pending) := by
  unfold Stream.input
  split
  · exact .inl rfl
  · dsimp only
    by_cases hrefused : (s.setViewer id { v with inputSequence := sequence }).refusal id v geometry events = none
    · rw [if_neg (not_not.mpr hrefused)]
      exact .inr (.inr ⟨hrefused, _, rfl⟩)
    · rw [if_pos hrefused]
      exact .inr (.inl rfl)

/-- With nobody else holding anything, what a viewer's events leave is held from it. -/
theorem seated_inputs {u : Viewer} (h : Seated s) (hv : s.viewers.get id = some u) (hkeeps : v.Keeps u)
    (havailable : s.inputAvailable v = true) (hlive : s.state.state = .live)
    (hholder : ∀ holder, s.holder = some holder → holder = v.sender id) (geometry : Nat)
    (events : List DisplayInputEvent) (pending : OrderedMap Nat PendingInput) :
    Seated (s.inputs id v geometry events pending) := by
  have hself : heldFrom (v.sender id) s.toPhone = s.held := by
    rw [h.held.sent]
    cases hnone : s.holder with
    | none => rw [if_neg (fun h => by cases h), h.held.empty.mpr hnone]
    | some holder => rw [if_pos (congrArg some (hholder holder hnone))]
  have hothers : ∀ other, other ≠ v.sender id → heldFrom other s.toPhone = ∅ := fun other hne => by
    rw [h.held.sent, if_neg fun heq => hne (hholder other heq)]
  have hnext : ∀ sender, (s.inputs id v geometry events pending).holder = some sender → sender = v.sender id := by
    intro sender hsender
    by_cases hnil : events.foldl trackHeldDisplayInput s.held = ∅
    · rw [show (s.inputs id v geometry events pending).holder = none from if_pos hnil] at hsender
      cases hsender
    · rw [show (s.inputs id v geometry events pending).holder = some (v.sender id) from if_neg hnil] at hsender
      exact (Option.some.inj hsender).symm
  refine ⟨⟨?_, fun sender => ?_, fun sender hsender => ?_, ?_⟩, fun sender hsender => ?_, fun _ _ => hlive⟩
  · show events.foldl trackHeldDisplayInput s.held = ∅ ↔
      (if events.foldl trackHeldDisplayInput s.held = ∅ then none else some (v.sender id)) = none
    by_cases hnil : events.foldl trackHeldDisplayInput s.held = ∅
    · simp [hnil]
    · simp [hnil]
  · show heldFrom sender (s.toPhone ++ [PhoneMessage.input (v.sender id) _ _ _ events]) =
      if (if events.foldl trackHeldDisplayInput s.held = ∅ then none else some (v.sender id)) = some sender
        then events.foldl trackHeldDisplayInput s.held else ∅
    rw [heldFrom_append, heldAfter]
    by_cases heq : v.sender id = sender
    · subst heq
      rw [if_pos rfl, hself]
      by_cases hnil : events.foldl trackHeldDisplayInput s.held = ∅
      · rw [if_pos hnil, if_neg (fun h => by cases h), hnil]
      · rw [if_neg hnil, if_pos rfl]
    · rw [if_neg heq, hothers sender (Ne.symm heq), if_neg]
      split
      · exact fun h => by cases h
      · exact fun h => heq (Option.some.inj h)
  · obtain rfl := hnext sender hsender
    exact names_inputName havailable
  · intro before sender names geometry' sequence events' hprefix other hother
    rcases List.prefix_concat_iff.mp hprefix with heq | hprefix
    · obtain ⟨rfl, hmessage⟩ := List.append_inj' heq rfl
      obtain ⟨rfl, -⟩ := PhoneMessage.input.inj (List.singleton_inj.mp hmessage)
      exact hothers other hother
    · exact h.held.alone before sender names geometry' sequence events' hprefix other hother
  · obtain rfl := hnext sender hsender
    exact ⟨u, hv, hkeeps.source, inputAvailable_keeps havailable hkeeps rfl⟩

theorem seated_input (h : Seated s) (hv : s.viewers.get id = some v) (sequence geometry : Nat)
    (events : List DisplayInputEvent) : Seated (s.input id v sequence geometry events) := by
  have hset := h.frees (lets_setViewer (u := { v with inputSequence := sequence }) hv
    ⟨rfl, rfl, rfl, fun h => h⟩).toFrees
  rcases input_cases s id v sequence geometry events with heq | heq | ⟨haccepted, pending, heq⟩
  · rwa [heq]
  · rwa [heq]
  · rw [heq]
    obtain ⟨havailable, hlive, -, hholder⟩ := refusal_eq_none haccepted
    refine seated_inputs hset (u := { v with inputSequence := sequence }) ?_ ⟨rfl, rfl, rfl, fun h => h⟩
      havailable hlive hholder geometry events pending
    simp only [setViewer, OrderedMap.get_set, if_true]

/-- Input says nothing of the stream's generations. -/
theorem dated_input (h : Dated s) (id : Nat) (v : Viewer) (sequence geometry : Nat)
    (events : List DisplayInputEvent) : Dated (s.input id v sequence geometry events) ∧
      (s.input id v sequence geometry events).generation = s.generation := by
  rcases input_cases s id v sequence geometry events with heq | heq | ⟨-, pending, heq⟩ <;> rw [heq] <;>
    exact ⟨h, rfl⟩

theorem fresh_input (h : Fresh s) (hv : s.viewers.get id = some v) (sequence geometry : Nat)
    (events : List DisplayInputEvent) : Fresh (s.input id v sequence geometry events) := by
  have hset := (lets_setViewer (u := { v with inputSequence := sequence }) hv
    ⟨rfl, rfl, rfl, fun h => h⟩).fresh h
  rcases input_cases s id v sequence geometry events with heq | heq | ⟨-, pending, heq⟩
  · rwa [heq]
  · rwa [heq]
  · rw [heq]
    exact hset

/-! ## Every run -/

/-- What holds of a stream in every run. -/
structure Ruled (s : Stream) : Prop extends Viewed s where
  seated : Seated s
  dated : Dated s
  fresh : Fresh s

theorem ruled_start (options : StreamOptions) (maxBitrate : Option Nat) {v : Viewer}
    (hwaiting : v.waiting = true) (hnone : v.replayIndex = none) : Ruled (start options maxBitrate v) where
  toViewed := viewed_start options maxBitrate hwaiting hnone
  seated := ⟨⟨⟨fun _ => rfl, fun _ => rfl⟩, fun _ => rfl, fun _ h => (nomatch h), fun before _ _ _ _ _ hprefix => by
    have hlength := hprefix.length_le
    simp [start] at hlength⟩, fun _ h => (nomatch h), fun _ h => nomatch h⟩
  dated := .inr ⟨rfl, Nat.le_refl 0⟩
  fresh id u hu := by
    simp only [start, OrderedMap.get_set, OrderedMap.get_empty] at hu
    split at hu
    · rename_i heq
      exact heq ▸ Nat.zero_lt_one
    · cases hu

/-- What a handler that sends no input leaves: of a stream at another generation nobody
holds anything. -/
theorem Ruled.frees (h : Ruled s) (hs : s.ended = false) (hviewed : Viewed s') (hfrees : Frees s s')
    (hdated : Dated s') : Ruled s' ∧ (s'.generation ≠ s.generation → s'.holder = none) := by
  have hseated := h.seated.frees hfrees
  refine ⟨⟨hviewed, hseated, hdated, hfrees.fresh h.fresh⟩, fun hne => ?_⟩
  cases hholder : s'.holder with
  | none => rfl
  | some sender =>
    exfalso
    obtain ⟨v, hv, -⟩ := hseated.present sender hholder
    have hdate := h.dated.resolve_left (by simp [hs])
    have hdate' := hdated.resolve_left (by simp [Relayed.ended_eq hviewed.relays hv])
    exact hne (hdate'.1.symm.trans ((hfrees.dated sender hholder).trans hdate.1))

theorem shows_attaches (h : Relays s) (hs : s.ended = false) (w : World) (hwaiting : v.waiting = true)
    (hnone : v.replayIndex = none) : Shows s (s.attaches w v) := by
  rw [attaches_eq]
  have hadmits : Shows s (s.admits v) :=
    ⟨rfl, rfl, rfl, rfl, fun h => h, fun h => h, Nat.le_refl _, Nat.le_max_left _ _, [],
      (List.append_nil _).symm, fun _ hp => nomatch hp⟩
  exact hadmits.trans (((steady_demand w (s.admits v)).replays.trans (replays_replay w _ s.admitted)).shows
    (serves_admits h hs hwaiting hnone).relays)

theorem lets_viewerMessage (w : World) (s : Stream) (id : Nat) {message : ClientMessage}
    (hmessage : ∀ sequence geometry events, message ≠ .input sequence geometry events false) :
    Lets s (s.viewerMessage w id message) := by
  unfold Stream.viewerMessage
  cases hv : s.viewers.get id with
  | none => exact .refl s
  | some v =>
    dsimp only
    split
    · exact .refl s
    split
    · exact lets_viewerLive w s id
    cases message with
    | keyframe => exact lets_keyframe w hv
    | ack sequence => exact lets_ack w hv sequence
    | power sequence lock => exact lets_power hv sequence lock
    | inputReset =>
      dsimp only
      split
      · exact lets_resetInput s
      · exact .refl s
    | input sequence geometry events controlled =>
      dsimp only
      split
      · exact .refl s
      · rename_i hcontrolled
        exact absurd (by rw [Bool.not_eq_true] at hcontrolled; rw [hcontrolled]) (hmessage sequence geometry events)

/-- A viewer's input, taken or not, keeps to the rule. -/
theorem ruled_viewerInput (h : Ruled s) (hs : s.ended = false) (w : World) (id sequence geometry : Nat)
    (events : List DisplayInputEvent) (hviewed : Viewed (s.viewerMessage w id (.input sequence geometry events false))) :
    Ruled (s.viewerMessage w id (.input sequence geometry events false)) ∧
      ((s.viewerMessage w id (.input sequence geometry events false)).generation ≠ s.generation →
        (s.viewerMessage w id (.input sequence geometry events false)).holder = none) := by
  revert hviewed
  unfold Stream.viewerMessage
  cases hv : s.viewers.get id with
  | none => exact fun _ => ⟨h, fun hne => absurd rfl hne⟩
  | some v =>
    dsimp only
    intro hviewed
    split
    · exact ⟨h, fun hne => absurd rfl hne⟩
    split
    · rename_i hopen hlive
      rw [if_neg hopen, if_pos hlive] at hviewed
      have hlets := lets_viewerLive w s id
      exact h.frees hs hviewed hlets.toFrees (h.dated.lets hlets (quiet_viewerLive w s id).shows)
    · rename_i hopen hlive
      rw [if_neg hopen, if_neg hlive, if_neg Bool.false_ne_true] at hviewed
      rw [if_neg Bool.false_ne_true]
      obtain ⟨hdated, hgeneration⟩ := dated_input h.dated id v sequence geometry events
      exact ⟨⟨hviewed, seated_input h.seated hv sequence geometry events, hdated,
        fresh_input h.fresh hv sequence geometry events⟩, fun hne => absurd hgeneration hne⟩

theorem ruled_act (h : Ruled s) (hs : s.ended = false) (action : Action) : Ruled (s.act action) ∧
    ((s.act action).generation ≠ s.generation → (s.act action).holder = none) := by
  have hviewed := (viewed_act h.toViewed hs action).1
  have hlets : ∀ {s'}, Viewed s' → Lets s s' → Shows s s' →
      Ruled s' ∧ (s'.generation ≠ s.generation → s'.holder = none) := fun hviewed hlets hshows =>
    h.frees hs hviewed hlets.toFrees (h.dated.lets hlets hshows)
  cases action with
  | media w frame =>
    obtain ⟨hfrees, hdated⟩ := frees_media h.relays hs h.dated w frame
    exact h.frees hs hviewed hfrees hdated
  | phoneState w event =>
    obtain ⟨hfrees, hdated⟩ := frees_phoneState h.dated hs w event
    exact h.frees hs hviewed hfrees hdated
  | attaches w source actor displayWindow link sharedInput phoneOwnerControl editing displayCut authorized =>
    exact hlets hviewed (lets_attaches h.fresh w _) (shows_attaches h.relays hs w rfl rfl)
  | leaves w id => exact hlets hviewed (lets_leaves w s id) (steady_leaves w s id).quiet.shows
  | socketCloses id =>
    exact hlets hviewed (lets_modify s id (f := fun v => { v with isOpen := false })
      fun v => ⟨rfl, rfl, rfl, fun h => h⟩) (quiet_modify s id (f := fun v => { v with isOpen := false })
      fun v => stays_of_same (fun h => nomatch h) rfl rfl).shows
  | viewerMessage w id message =>
    by_cases hinput : ∃ sequence geometry events, message = .input sequence geometry events false
    · obtain ⟨sequence, geometry, events, rfl⟩ := hinput
      exact ruled_viewerInput h hs w id sequence geometry events hviewed
    · exact hlets hviewed (lets_viewerMessage w s id fun sequence geometry events heq =>
        hinput ⟨sequence, geometry, events, heq⟩) ((replays_viewerMessage w s id message).shows h.relays)
  | inputEvent w sequence receipt geometry source =>
    exact hlets hviewed (lets_inputEvent w s sequence receipt geometry source)
      (steady_inputEvent w s sequence receipt geometry source).quiet.shows
  | powerResult sequence source =>
    exact hlets hviewed (lets_powerResult s sequence source) (steady_powerResult s sequence source).quiet.shows
  | sourceChanged w source =>
    exact hlets hviewed (lets_sourceChanged w s source) (steady_sourceChanged w s source).quiet.shows
  | endsSource w source => exact hlets hviewed (lets_endSource w s source) (quiet_endSource w s source).shows
  | authorizes w id authorized =>
    exact hlets hviewed (lets_inputAuthorization w s id authorized) (steady_inputAuthorization w s id authorized).quiet.shows
  | withdrawsOwnerInput w =>
    exact hlets hviewed (lets_withdrawOwnerInput w s) (steady_withdrawOwnerInput w s).quiet.shows
  | rechecks w id => exact hlets hviewed (lets_viewerLive w s id) (quiet_viewerLive w s id).shows
  | demands w reset =>
    have hreset : Lets s (if reset then { s with demandKey := none } else s) ∧
        Quiet s (if reset then { s with demandKey := none } else s) := by
      split
      · exact ⟨lets_ignored rfl rfl rfl rfl rfl rfl rfl rfl,
          .of_still (.of_same rfl rfl rfl rfl rfl rfl rfl rfl rfl) rfl rfl⟩
      · exact ⟨.refl s, .refl s⟩
    exact hlets hviewed (hreset.1.trans (lets_demand w _)) (hreset.2.trans (quiet_demand w _)).shows
  | failsCapture w reason =>
    exact h.frees hs hviewed (frees_failCapture w s reason) (.inl (failCapture_ended w s reason))
  | ends terminal => exact hlets hviewed (lets_finish s terminal) (quiet_finish s terminal).shows

theorem ruled_step (h : Ruled s) {action : Action} (hstep : machine.step s action = some s') :
    Ruled s' ∧ (s'.generation ≠ s.generation → s'.holder = none) := by
  obtain rfl := Option.some.inj hstep
  split
  · exact ⟨h, fun hne => absurd rfl hne⟩
  · rename_i hs
    exact ruled_act h (by simpa using hs) action

theorem ruled_run {as : List Action} (h : Ruled s) (hrun : machine.run s as = some s') : Ruled s' :=
  machine.invariant h (fun _ _ _ h hstep => (ruled_step h hstep).1) hrun

/-- From whom something is held is the holder. -/
theorem Ruled.holder_eq (h : Ruled s) (hheld : heldFrom sender s.toPhone ≠ ∅) : s.holder = some sender := by
  by_contra hne
  rw [h.seated.held.sent, if_neg hne] at hheld
  exact hheld rfl

/-- Of a stream created for its first viewer, whatever comes, in any order: something is
held just when there is a holder; whenever a viewer's input was sent, nothing was held from
any other; a viewer from whom something is held is there, may give input, and the display
is live; and a step to another generation leaves nothing held from anybody. -/
theorem one_holder (options : StreamOptions) (maxBitrate : Option Nat) (source : DisplaySource)
    (actor : UserId) (displayWindow link sharedInput phoneOwnerControl editing displayCut authorized : Bool)
    {as : List Action}
    (hrun : machine.run (start options maxBitrate (newViewer source actor displayWindow link sharedInput
      phoneOwnerControl editing displayCut authorized)) as = some s) :
    (s.held ≠ ∅ ↔ s.holder.isSome = true) ∧
    (∀ (before : List PhoneMessage) sender names geometry sequence events after,
      s.toPhone = before ++ PhoneMessage.input sender names geometry sequence events :: after →
        ∀ other, other ≠ sender → heldFrom other before = ∅) ∧
    (∀ sender, heldFrom sender s.toPhone ≠ ∅ → ∃ v, s.viewers.get sender.viewer = some v ∧
      v.source = sender.source ∧ s.inputAvailable v = true ∧ s.state.state = .live) ∧
    ∀ action s', machine.step s action = some s' → s'.generation ≠ s.generation →
      ∀ sender, heldFrom sender s'.toPhone = ∅ := by
  have h := ruled_run (ruled_start options maxBitrate rfl rfl) hrun
  refine ⟨?_, ?_, ?_, ?_⟩
  · rw [Ne, h.seated.held.empty, Option.isSome_iff_ne_none]
  · intro before sender names geometry sequence events after heq other hother
    refine h.seated.held.alone before sender names geometry sequence events ?_ other hother
    rw [heq]
    exact ⟨after, by simp⟩
  · intro sender hheld
    have hholder := h.holder_eq hheld
    obtain ⟨v, hv, hsource, havailable⟩ := h.seated.present sender hholder
    exact ⟨v, hv, hsource, havailable, h.seated.live sender hholder⟩
  · intro action s' hstep hne sender
    obtain ⟨hruled, hgone⟩ := ruled_step h hstep
    rw [hruled.seated.held.sent, hgone hne, if_neg (nomatch ·)]

/-- One viewer presses and lifts, and another presses. -/
def pressedRun : List Action :=
  [.media openWorld (phoneFrame 1 1 true), .attaches openWorld taskSource ⟨"owner"⟩ true true true true true true true,
    .viewerMessage openWorld 0 (.input 0 1 [.pointer .down] false),
    .viewerMessage openWorld 1 (.input 0 1 [.pointer .down] false),
    .viewerMessage openWorld 0 (.input 1 1 [.pointer .up] false),
    .viewerMessage openWorld 1 (.input 1 1 [.pointer .down] false)]

theorem one_holder_run : ∃ s, machine.run phoneStream pressedRun = some s ∧
    s.holder = some ⟨1, taskSource⟩ ∧ s.held ≠ ∅ ∧ heldFrom ⟨0, taskSource⟩ (s.toPhone.take 2) = ∅ ∧
    ∀ action s', machine.step s action = some s' → s'.generation ≠ s.generation →
      ∀ sender, heldFrom sender s'.toPhone = ∅ := by
  obtain ⟨s, hrun, hholder, hsent⟩ := machine.exists_run_of_any
    (P := fun s => s.holder = some ⟨1, taskSource⟩ ∧ s.toPhone = s.toPhone.take 2 ++
      [PhoneMessage.input ⟨1, taskSource⟩ (.source taskSource) 1 2 [.pointer .down]])
    (s := phoneStream) (l := pressedRun) (by decide +kernel)
  obtain ⟨hheld, halone, -, hstep⟩ := one_holder phoneOptions none taskSource ⟨"owner"⟩ true true true true true
    true true hrun
  exact ⟨s, hrun, hholder, hheld.mpr (by rw [hholder]; rfl),
    halone _ _ _ _ _ _ [] hsent _ (by decide), hstep⟩

end Opensteer.DisplayStreamHub
