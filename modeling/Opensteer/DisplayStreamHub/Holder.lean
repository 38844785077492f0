import Opensteer.DisplayStreamHub.Shown

/-!
# Who holds something on the display

What is held from a viewer, going by what was sent to the phone: its own events, up to the
next reset that names its source (`heldFrom`). It is what the stream says its holder holds,
and nothing from anybody else (`Held`). No handler but the one for a viewer's input makes
anybody the holder; what the others do with what is held is `Lets`.
-/

namespace Opensteer.DisplayStreamHub

open Opensteer.DisplayStreamHub.Stream

/-- A reset is about a source. -/
def SourceName.names : SourceName → DisplaySource → Bool
  | .source of', named => of' = named
  | .session of', .taskSession sessionId _ => of' = sessionId
  | _, _ => false

/-- What is held from a viewer after a message. -/
def heldAfter (sender : Sender) (held : Finset HeldItem) : PhoneMessage → Finset HeldItem
  | .input from' _ _ _ events => if from' = sender then events.foldl trackHeldDisplayInput held else held
  | .inputReset names => if names.names sender.source then ∅ else held
  | _ => held

/-- What is held from a viewer after the messages. -/
def heldFrom (sender : Sender) (messages : List PhoneMessage) : Finset HeldItem :=
  messages.foldl (heldAfter sender) ∅

/-- What is no person's input. -/
def PhoneMessage.isAside : PhoneMessage → Bool
  | .input .. | .inputReset _ => false
  | _ => true

/-- What is held is held from the holder, and whenever somebody's input was sent nothing was
held from anybody else. -/
structure Held (s : Stream) : Prop where
  empty : s.held = ∅ ↔ s.holder = none
  sent : ∀ sender, heldFrom sender s.toPhone = if s.holder = some sender then s.held else ∅
  named : ∀ sender, s.holder = some sender → (s.inputName sender.source).names sender.source = true
  alone : ∀ (before : List PhoneMessage) sender names geometry sequence events,
    before ++ [PhoneMessage.input sender names geometry sequence events] <+: s.toPhone →
      ∀ other, other ≠ sender → heldFrom other before = ∅

/-- A viewer that is still there, with what it may do. -/
structure Viewer.Keeps (v v' : Viewer) : Prop where
  source : v'.source = v.source
  sharedInput : v'.sharedInput = v.sharedInput
  phoneOwnerControl : v'.phoneOwnerControl = v.phoneOwnerControl
  authorized : v.authorized = true → v'.authorized = true

/-- The viewers came before the one that comes next. -/
def Fresh (s : Stream) : Prop := ∀ id v, s.viewers.get id = some v → id < s.admitted

/-- No viewer's input is sent, and what is held stays held or is let go. -/
structure Frees (s s' : Stream) : Prop where
  options : s'.options = s.options
  held : Held s → Held s'
  holder : s'.holder = s.holder ∨ s'.holder = none
  present : ∀ sender v, s'.holder = some sender → s.viewers.get sender.viewer = some v →
    v.source = sender.source → ∃ v', s'.viewers.get sender.viewer = some v' ∧ v.Keeps v'
  ended : s.ended = true → s'.ended = true
  live : ∀ sender, s'.holder = some sender → s'.state.state = s.state.state ∨ s'.state.state = .live
  dated : ∀ sender, s'.holder = some sender → s'.state.generation = s.state.generation
  fresh : Fresh s → Fresh s'

/-- And the stream's state stays that of a generation. -/
structure Lets (s s' : Stream) : Prop extends Frees s s' where
  generation : s'.ended = true ∨ s'.state.generation = s.state.generation

variable {s s' t : Stream} {w : World} {id : Nat} {v v' u : Viewer} {sender : Sender} {message : PhoneMessage}

theorem Viewer.Keeps.refl (v : Viewer) : v.Keeps v := ⟨rfl, rfl, rfl, fun h => h⟩

theorem Viewer.Keeps.trans (h : v.Keeps v') (h' : v'.Keeps u) : v.Keeps u :=
  ⟨h'.source.trans h.source, h'.sharedInput.trans h.sharedInput, h'.phoneOwnerControl.trans h.phoneOwnerControl,
    fun hv => h'.authorized (h.authorized hv)⟩

theorem heldFrom_append (sender : Sender) (messages : List PhoneMessage) (message : PhoneMessage) :
    heldFrom sender (messages ++ [message]) = heldAfter sender (heldFrom sender messages) message := by
  unfold heldFrom
  rw [List.foldl_append, List.foldl_cons, List.foldl_nil]

theorem heldAfter_of_isAside (h : message.isAside = true) (held : Finset HeldItem) :
    heldAfter sender held message = held := by
  cases message <;> first | rfl | cases h

/-- What is no input is sent. -/
theorem Held.aside (h : Held s) (hmessage : message.isAside = true) : Held (s.send message) where
  empty := h.empty
  sent sender := by
    show heldFrom sender (s.toPhone ++ [message]) = _
    rw [heldFrom_append, heldAfter_of_isAside hmessage]
    exact h.sent sender
  named := h.named
  alone before sender names geometry sequence events hprefix := by
    rcases List.prefix_concat_iff.mp hprefix with heq | hprefix
    · obtain ⟨-, rfl⟩ := List.append_inj' heq rfl |>.imp_right List.singleton_inj.mp
      cases hmessage
    · exact h.alone before sender names geometry sequence events hprefix

/-- What is held is reset. -/
theorem Held.reset (h : Held s) : Held s.resetInput := by
  unfold Stream.resetInput
  cases hholder : s.holder with
  | none => exact h
  | some holder =>
    refine ⟨⟨fun _ => rfl, fun _ => rfl⟩, fun sender => ?_, fun _ hnone => (nomatch hnone),
      fun before sender names geometry sequence events hprefix => ?_⟩
    · show heldFrom sender (s.toPhone ++ [PhoneMessage.inputReset (s.inputName holder.source)]) = ∅
      rw [heldFrom_append, heldAfter, h.sent sender]
      by_cases heq : s.holder = some sender
      · obtain rfl := Option.some.inj (hholder.symm.trans heq)
        rw [h.named holder heq, if_pos rfl]
      · rw [if_neg heq]
        split <;> rfl
    · rcases List.prefix_concat_iff.mp hprefix with heq | hprefix
      · obtain ⟨-, hne⟩ := List.append_inj' heq rfl |>.imp_right List.singleton_inj.mp
        cases hne
      · exact h.alone before sender names geometry sequence events hprefix

theorem Frees.holder_eq (h : Frees s s') (hholder : s'.holder = some sender) : s.holder = some sender := by
  rcases h.holder with heq | hnone
  · exact heq.symm.trans hholder
  · exact nomatch hnone.symm.trans hholder

theorem Frees.trans (h : Frees s s') (h' : Frees s' t) : Frees s t where
  options := h'.options.trans h.options
  held hs := h'.held (h.held hs)
  holder := by
    rcases h'.holder with heq | hnone
    · rw [heq]
      exact h.holder
    · exact .inr hnone
  present sender v hholder hv hsource := by
    have hmiddle := h'.holder_eq hholder
    obtain ⟨v', hv', hkeeps⟩ := h.present sender v hmiddle hv hsource
    obtain ⟨v'', hv'', hkeeps'⟩ := h'.present sender v' hholder hv' (hkeeps.source.trans hsource)
    exact ⟨v'', hv'', hkeeps.trans hkeeps'⟩
  ended hs := h'.ended (h.ended hs)
  live sender hholder := by
    rcases h'.live sender hholder with heq | hlive
    · rw [heq]
      exact h.live sender (h'.holder_eq hholder)
    · exact .inr hlive
  dated sender hholder := (h'.dated sender hholder).trans (h.dated sender (h'.holder_eq hholder))
  fresh hs := h'.fresh (h.fresh hs)

namespace Lets

theorem trans {m : Stream} (h : Lets s m) (h' : Lets m t) : Lets s t where
  toFrees := h.toFrees.trans h'.toFrees
  generation := by
    rcases h'.generation with hended | heq
    · exact .inl hended
    · exact h.generation.imp h'.ended heq.trans

/-- What is not about input. -/
theorem of_same (hoptions : s'.options = s.options) (hholder : s'.holder = s.holder) (hheld : s'.held = s.held)
    (htoPhone : s'.toPhone = s.toPhone) (hended : s.ended = true → s'.ended = true) (hstate : s'.state = s.state)
    (hfresh : Fresh s → Fresh s') (hviewers : ∀ id v, s.viewers.get id = some v → ∃ v', s'.viewers.get id = some v' ∧ v.Keeps v') :
    Lets s s' where
  options := hoptions
  held h := by
    refine ⟨?_, ?_, ?_, ?_⟩
    · rw [hheld, hholder]
      exact h.empty
    · rw [hheld, hholder, htoPhone]
      exact h.sent
    · rw [hholder]
      intro sender hsender
      have hnamed := h.named sender hsender
      unfold Stream.inputName at hnamed ⊢
      rw [hoptions]
      exact hnamed
    · rw [htoPhone]
      exact h.alone
  holder := .inl hholder
  present sender v _ hv _ := hviewers sender.viewer v hv
  ended := hended
  live _ _ := .inl (by rw [hstate])
  dated _ _ := by rw [hstate]
  fresh := hfresh
  generation := .inr (by rw [hstate])

theorem refl (s : Stream) : Lets s s :=
  .of_same rfl rfl rfl rfl (fun h => h) rfl (fun h => h) fun _ v hv => ⟨v, hv, .refl v⟩

theorem foldl {β : Type} {f : Stream → β → Stream} (hf : ∀ s b, Lets s (f s b)) (bs : List β) (s : Stream) :
    Lets s (bs.foldl f s) := by
  induction bs generalizing s with
  | nil => exact refl s
  | cons b bs ih => exact (hf s b).trans (ih (f s b))

end Lets

/-! ## Each function -/

theorem lets_send (s : Stream) {m : PhoneMessage} (hmessage : m.isAside = true) : Lets s (s.send m) where
  options := rfl
  held h := h.aside hmessage
  holder := .inl rfl
  present _ v _ hv _ := ⟨v, hv, .refl v⟩
  ended h := h
  live _ _ := .inl rfl
  dated _ _ := rfl
  fresh h := h
  generation := .inr rfl

theorem holder_resetInput (s : Stream) : s.resetInput.holder = none := by
  unfold Stream.resetInput
  split
  · assumption
  · rfl

theorem state_resetInput (s : Stream) : s.resetInput.state = s.state := by
  unfold Stream.resetInput
  split <;> rfl

theorem options_resetInput (s : Stream) : s.resetInput.options = s.options := (quiet_resetInput s).options

theorem lets_resetInput (s : Stream) : Lets s s.resetInput where
  options := options_resetInput s
  held h := h.reset
  holder := .inr (holder_resetInput s)
  present sender _ h := nomatch (holder_resetInput s).symm.trans h
  ended h := (ended_resetInput s).trans h
  live sender h := nomatch (holder_resetInput s).symm.trans h
  dated sender h := nomatch (holder_resetInput s).symm.trans h
  fresh h := by
    intro id v hv
    rw [viewers_resetInput] at hv
    rw [(quiet_resetInput s).admitted]
    exact h id v hv
  generation := .inr (by rw [state_resetInput])

theorem state_publishState (s : Stream) (next : DisplayViewerState) : (s.publishState next).state = next := by
  unfold Stream.publishState
  split
  · assumption
  · rfl

theorem frees_publishState (s : Stream) (next : DisplayViewerState) : Frees s (s.publishState next) := by
  unfold Stream.publishState
  split
  · exact (Lets.refl s).toFrees
  · by_cases hreset : s.state.generation ≠ next.generation ∨ next.state ≠ .live
    · rw [if_pos hreset]
      refine (lets_resetInput s).toFrees.trans ?_
      have hnone := holder_resetInput s
      exact ⟨rfl, fun h => ⟨h.empty, h.sent, fun sender h' => h.named sender h', h.alone⟩, .inl rfl,
        fun _ v _ hv _ => ⟨v, hv, .refl v⟩, fun h => h, fun _ h => (nomatch hnone.symm.trans h), fun _ h => (nomatch hnone.symm.trans h), fun h => h⟩
    · rw [if_neg hreset]
      rw [not_or, not_not, not_not] at hreset
      exact ⟨rfl, fun h => ⟨h.empty, h.sent, fun sender h' => h.named sender h', h.alone⟩, .inl rfl,
        fun _ v _ hv _ => ⟨v, hv, .refl v⟩, fun h => h, fun _ _ => .inr hreset.2, fun _ _ => hreset.1.symm, fun h => h⟩

theorem lets_publishState {next : DisplayViewerState} (h : next.generation = s.state.generation) :
    Lets s (s.publishState next) :=
  ⟨frees_publishState s next, .inr (by rw [state_publishState, h])⟩

/-- Viewers change, but not in what they may do. -/
theorem lets_mapViewers (s : Stream) {f : Viewer → Viewer} (hf : ∀ v : Viewer, v.Keeps (f v)) :
    Lets s (s.mapViewers f) :=
  .of_same rfl rfl rfl rfl (fun h => h) rfl
    (fun hfresh id v hv => by
      simp only [mapViewers, OrderedMap.get_mapValues] at hv
      obtain ⟨u, hu, -⟩ := Option.map_eq_some_iff.mp hv
      exact hfresh id u hu)
    fun id v hv => ⟨f v, by simp only [mapViewers, OrderedMap.get_mapValues, hv, Option.map_some], hf v⟩

theorem keeps_dropReplay (v : Viewer) : v.Keeps v.dropReplay := by
  unfold Viewer.dropReplay
  split
  · exact .refl v
  · exact ⟨rfl, rfl, rfl, fun h => h⟩

theorem lets_clearCache (s : Stream) : Lets s s.clearCache :=
  Lets.trans (m := { s with cache := [], cacheBytes := 0 })
    (.of_same rfl rfl rfl rfl (fun h => h) rfl (fun h => h) fun _ v hv => ⟨v, hv, .refl v⟩)
    (lets_mapViewers _ keeps_dropReplay)

theorem lets_hands (hv : s.viewers.get id = some v) (hkeeps : v.Keeps v') (frames : List MediaFrame) :
    Lets s (s.hands id v' frames) := by
  refine .of_same rfl rfl rfl rfl (fun h => h) rfl (fun hfresh other u hu => ?_) fun other u hu => ?_
  · simp only [Stream.hands, setViewer, OrderedMap.get_set] at hu
    split at hu
    · rename_i heq
      exact hfresh other v (heq ▸ hv)
    · exact hfresh other u hu
  simp only [Stream.hands, setViewer, OrderedMap.get_set]
  split
  · rename_i heq
    subst heq
    obtain rfl := Option.some.inj (hv.symm.trans hu)
    exact ⟨v', rfl, hkeeps⟩
  · exact ⟨u, hu, .refl u⟩

theorem lets_setViewer (hv : s.viewers.get id = some v) (hkeeps : v.Keeps u) : Lets s (s.setViewer id u) := by
  rw [setViewer_eq_hands]
  exact lets_hands hv hkeeps []

theorem lets_modify (s : Stream) (id : Nat) {f : Viewer → Viewer} (hf : ∀ v : Viewer, v.Keeps (f v)) :
    Lets s { s with viewers := s.viewers.modify id f } := by
  unfold OrderedMap.modify
  cases hv : s.viewers.get id with
  | none => exact .refl s
  | some v => exact lets_setViewer hv (hf v)

/-- What a viewer that goes held is reset. -/
theorem lets_removeViewer (s : Stream) (id : Nat) : Lets s (s.removeViewer id) := by
  unfold Stream.removeViewer
  cases hv : s.viewers.get id with
  | none => exact .refl s
  | some v =>
    dsimp only
    have hdeleted : Fresh s → Fresh { s with viewers := s.viewers.delete id } := fun hfresh other u hu => by
      rw [OrderedMap.get_delete] at hu
      split at hu
      · cases hu
      · exact hfresh other u hu
    refine Lets.trans (m := if s.holder = some (v.sender id) then
      ({ s with viewers := s.viewers.delete id } : Stream).resetInput else { s with viewers := s.viewers.delete id })
      ?_ (.of_same rfl rfl rfl rfl (fun h => h) rfl (fun h => h) fun _ v hv => ⟨v, hv, .refl v⟩)
    split
    · rename_i hholder
      have hreset := lets_resetInput { s with viewers := s.viewers.delete id }
      refine ⟨⟨hreset.options, fun h => ?_, .inr (holder_resetInput _), fun sender _ h => ?_, hreset.ended,
        hreset.live, hreset.dated, fun hfresh => hreset.fresh (hdeleted hfresh)⟩, hreset.generation⟩
      · exact Held.reset ⟨h.empty, h.sent, fun sender h' => h.named sender h', h.alone⟩
      · cases (holder_resetInput _).symm.trans h
    · rename_i hholder
      refine ⟨⟨rfl, fun h => ⟨h.empty, h.sent, fun sender h' => h.named sender h', h.alone⟩, .inl rfl,
        fun sender u hsender hu hsource => ⟨u, ?_, .refl u⟩, fun h => h, fun _ _ => .inl rfl, fun _ _ => rfl, hdeleted⟩,
        .inr rfl⟩
      show (s.viewers.delete id).get sender.viewer = some u
      rw [OrderedMap.get_delete, if_neg ?_]
      · exact hu
      · intro heq
        subst heq
        obtain rfl := Option.some.inj (hv.symm.trans hu)
        refine hholder (hsender.trans (congrArg some ?_))
        rw [Viewer.sender, hsource]

theorem lets_finish (s : Stream) (terminal : Bool) : Lets s (s.finish terminal) := by
  unfold Stream.finish
  split
  · exact .refl s
  · dsimp only
    have hstate : Frees s (if terminal && !s.state.state.isSettled then
        s.publishState { s.state with state := .stopped, generation := s.generation, reason := none } else s) := by
      split
      · exact frees_publishState s _
      · exact (Lets.refl s).toFrees
    generalize (if terminal && !s.state.state.isSettled then _ else s) = s₁ at hstate
    have hended : Lets s₁ { s₁ with ended := true } :=
      .of_same rfl rfl rfl rfl (fun _ => rfl) rfl (fun h => h) fun _ v hv => ⟨v, hv, .refl v⟩
    have hclosed := hended.trans ((lets_resetInput _).trans (lets_send _ (m := .stop) rfl))
    have hgone := hclosed.trans (Lets.foldl lets_removeViewer
      (({ s₁ with ended := true } : Stream).resetInput.send .stop).viewers.keys _)
    refine ⟨hstate.trans hgone.toFrees, .inl ?_⟩
    refine (Quiet.foldl quiet_removeViewer _ _).ended ?_
    exact ended_resetInput _

theorem lets_unasked (s : Stream) (key : DemandKey) : Lets s (s.unasked key) :=
  Lets.trans (m := { s with demandKey := some key })
    (.of_same rfl rfl rfl rfl (fun h => h) rfl (fun h => h) fun _ v hv => ⟨v, hv, .refl v⟩) (lets_clearCache _)

theorem lets_demand (w : World) (s : Stream) : Lets s (s.demand w) := by
  have hdemands := demands_demand w s
  generalize s.demand w = s' at hdemands
  cases hdemands with
  | asked => exact .of_same rfl rfl rfl rfl (fun h => h) rfl (fun h => h) fun _ v hv => ⟨v, hv, .refl v⟩
  | asks =>
    refine Lets.trans ?_ (lets_send _ (m := .demand _) rfl)
    exact .of_same rfl rfl rfl rfl (fun h => h) rfl (fun h => h) fun _ v hv => ⟨v, hv, .refl v⟩
  | @ends key => exact (lets_unasked s key).trans (lets_finish _ true)
  | @warms key evicts =>
    have hwarmed : Lets s (s.warmed key) := by
      refine (lets_unasked s key).trans (Lets.trans (m := { s.unasked key with stopping := true }) ?_
        (lets_publishState rfl))
      exact .of_same rfl rfl rfl rfl (fun h => h) rfl (fun h => h) fun _ v hv => ⟨v, hv, .refl v⟩
    refine Lets.trans ?_ (lets_send _ (m := .demand []) rfl)
    split
    · exact hwarmed.trans (lets_finish _ true)
    · exact hwarmed
  | @withholds key =>
    refine Lets.trans ?_ (lets_send _ (m := .demand []) rfl)
    refine (lets_unasked s key).trans (Lets.trans
      (m := { s.unasked key with withheldThrough := max s.withheldThrough s.generation }) ?_ (lets_publishState rfl))
    exact .of_same rfl rfl rfl rfl (fun h => h) rfl (fun h => h) fun _ v hv => ⟨v, hv, .refl v⟩

theorem lets_withoutSource (s : Stream) (source : DisplaySource) : Lets s (s.withoutSource source) :=
  Lets.trans (m := { s with authorities := s.authorities.delete source.key })
    (.of_same rfl rfl rfl rfl (fun h => h) rfl (fun h => h) fun _ v hv => ⟨v, hv, .refl v⟩) (Lets.foldl lets_removeViewer _ _)

theorem lets_endSource (w : World) (s : Stream) (source : DisplaySource) : Lets s (s.endSource w source) := by
  rcases endSource_cases w s source with ⟨-, heq⟩ | ⟨-, heq⟩ | heq | heq
  · rw [heq]
    exact .refl s
  · rw [heq]
    exact .of_same rfl rfl rfl rfl (fun h => h) rfl (fun h => h) fun _ v hv => ⟨v, hv, .refl v⟩
  · rw [heq]
    exact (lets_withoutSource s source).trans (lets_finish _ true)
  · rw [heq]
    exact (lets_withoutSource s source).trans (lets_demand w _)

theorem lets_viewerLive (w : World) (s : Stream) (id : Nat) : Lets s (s.viewerLive w id).2 := by
  rcases viewerLive_cases w s id with ⟨-, heq⟩ | ⟨v, -, heq | heq⟩
  · rw [heq]
    exact .refl s
  · rw [heq]
    exact .refl s
  · rw [heq]
    exact lets_endSource w s v.source

theorem keeps_drain (w : World) (attempt id : Nat) (frames : List MediaFrame) (v : Viewer) :
    v.Keeps (v.drain w attempt id frames).1 := by
  induction frames generalizing v with
  | nil =>
    unfold Viewer.drain
    split <;> exact ⟨rfl, rfl, rfl, fun h => h⟩
  | cons frame frames ih =>
    unfold Viewer.drain
    split
    · refine Viewer.Keeps.trans ?_ (ih _)
      dsimp only
      unfold Viewer.sendFrame
      dsimp only
      split <;> exact ⟨rfl, rfl, rfl, fun h => h⟩
    · exact .refl v

theorem lets_drainCache (w : World) (attempt : Nat) (s : Stream) (id : Nat) :
    Lets s (s.drainCache w attempt id) := by
  unfold Stream.drainCache
  cases hv : s.viewers.get id with
  | none => exact .refl s
  | some v =>
    dsimp only
    split
    · exact .refl s
    · split
      · exact lets_hands hv (keeps_drain w attempt id _ v) _
      · exact lets_viewerLive w s id

theorem lets_replay (w : World) (s : Stream) (id : Nat) : Lets s (s.replay w id) := by
  unfold Stream.replay
  dsimp only
  split
  · exact lets_viewerLive w s id
  · split
    · rename_i v last hv _
      split
      · exact .refl s
      · exact (lets_setViewer (u := { v with
          replayIndex := some 0, replayThrough := some last.sequence, waiting := false }) hv
            ⟨rfl, rfl, rfl, fun h => h⟩).trans (lets_drainCache w 0 _ id)
    · exact .refl s

theorem lets_failOwnerSources (w : World) (s : Stream) : Lets s (s.failOwnerSources w) := by
  unfold Stream.failOwnerSources
  split
  · exact Lets.foldl (fun s (v : Viewer) => lets_endSource w s v.source) _ s
  · exact .refl s

theorem frees_failCapture (w : World) (s : Stream) (reason : String) : Frees s (s.failCapture w reason) := by
  unfold Stream.failCapture
  split
  · exact (Lets.refl s).toFrees
  · have hcleared : Lets s { s.clearCache with withheldThrough := maxSafeInteger } :=
      (lets_clearCache s).trans (.of_same rfl rfl rfl rfl (fun h => h) rfl (fun h => h) fun _ v hv => ⟨v, hv, .refl v⟩)
    exact hcleared.toFrees.trans ((frees_publishState _ _).trans
      ((lets_failOwnerSources w _).trans (lets_finish _ true)).toFrees)

theorem keeps_skip (v : Viewer) : v.Keeps v.skip := ⟨rfl, rfl, rfl, fun h => h⟩

theorem lets_deliver (w : World) (frame : MediaFrame) (s : Stream) (id : Nat) : Lets s (s.deliver w frame id) := by
  unfold Stream.deliver
  dsimp only
  split
  · exact lets_viewerLive w s id
  · split
    · exact .refl s
    · rename_i v hv
      split
      · exact lets_drainCache w 0 s id
      · split
        · exact .refl s
        · split
          · refine lets_hands hv ?_ _
            unfold Viewer.sendFrame
            dsimp only
            split <;> exact ⟨rfl, rfl, rfl, fun h => h⟩
          · refine Lets.trans ?_ (lets_modify _ id keeps_skip)
            split
            · exact lets_demand w s
            · exact .refl s

theorem lets_cacheFrame (s : Stream) (frame : MediaFrame) : Lets s (s.cacheFrame frame) := by
  unfold Stream.cacheFrame
  split
  · split
    · exact (lets_clearCache s).trans (Lets.foldl (fun s id => lets_modify s id keeps_skip) _ _)
    · exact .of_same rfl rfl rfl rfl (fun h => h) rfl (fun h => h) fun _ v hv => ⟨v, hv, .refl v⟩
  · exact .refl s

end Opensteer.DisplayStreamHub
