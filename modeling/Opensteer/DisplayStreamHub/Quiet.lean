import Opensteer.DisplayStreamHub.Shapes

/-!
# What hands no frame on

Most of what the handlers do hands no frame to a viewer: viewers go or wait, the cache is
cleared, and more is withheld, but none of it is undone (`Quiet`). It is so of each
function but those that replay, deliver or receive a frame.
-/

namespace Opensteer.DisplayStreamHub

open Opensteer.DisplayStreamHub.Stream

/-- A viewer that goes on as it was, or that waits for a key. -/
structure Viewer.Stays (cleared : Prop) (v v' : Viewer) : Prop where
  isOpen : v'.isOpen = true → v.isOpen = true
  lane : (v'.waiting = true ∧ v'.replayIndex = none) ∨
    (v'.waiting = v.waiting ∧ v'.replayIndex = v.replayIndex ∧ (v.replayIndex ≠ none → ¬cleared))

/-- No frame is handed on, and no viewer comes. -/
structure Still (s s' : Stream) : Prop where
  options : s'.options = s.options
  handed : s'.handed = s.handed
  generation : s'.generation = s.generation
  mediaGeneration : s'.mediaGeneration = s.mediaGeneration
  firstKey : s'.firstKey = s.firstKey
  admitted : s'.admitted = s.admitted
  withheld : s'.withheldThrough = s.withheldThrough ∨
    (s'.viewers.entries = [] ∧ s'.cache = [] ∧ s.withheldThrough ≤ s'.withheldThrough ∧
      s'.withheldThrough ≤ max s.withheldThrough s.generation)
  cache : s'.cache = [] ∨ s'.cache = s.cache
  viewers : ∀ id v', s'.viewers.get id = some v' →
    ∃ v, s.viewers.get id = some v ∧ v.Stays (s'.cache ≠ s.cache) v'

/-- And no frame comes, and a stream that ends has no viewers. -/
structure Quiet (s s' : Stream) : Prop extends Still s s' where
  sent : s'.sent = s.sent
  ended : s.ended = true → s'.ended = true
  deserted : s'.ended = true → s.ended = true ∨ s'.viewers.entries = []

variable {s s' t : Stream} {w : World} {id : Nat} {v v' : Viewer}

theorem Viewer.Stays.refl {cleared : Prop} (h : ¬cleared) (v : Viewer) : v.Stays cleared v :=
  ⟨id, .inr ⟨rfl, rfl, fun _ => h⟩⟩

namespace Still

/-- No viewer comes. -/
theorem entries_nil (h : Still s s') (hs : s.viewers.entries = []) : s'.viewers.entries = [] := by
  rw [OrderedMap.entries_eq_nil_iff] at hs ⊢
  intro other
  cases hv : s'.viewers.get other with
  | none => rfl
  | some v' =>
    obtain ⟨v, hv, -⟩ := h.viewers other v' hv
    rw [hs] at hv
    cases hv

theorem cache_nil (h : Still s s') (hs : s.cache = []) : s'.cache = [] := by
  rcases h.cache with hnil | hsame
  · exact hnil
  · rw [hsame, hs]

theorem withheld_le (h : Still s s') : s.withheldThrough ≤ s'.withheldThrough := by
  rcases h.withheld with heq | hle
  · exact Nat.le_of_eq heq.symm
  · exact hle.2.2.1

/-- No more is withheld than the stream's generation. -/
theorem withheld_bound (h : Still s s') : s'.withheldThrough ≤ max s.withheldThrough s.generation := by
  rcases h.withheld with heq | hle
  · exact heq ▸ Nat.le_max_left _ _
  · exact hle.2.2.2

theorem trans (h : Still s s') (h' : Still s' t) : Still s t where
  options := h'.options.trans h.options
  handed := h'.handed.trans h.handed
  generation := h'.generation.trans h.generation
  mediaGeneration := h'.mediaGeneration.trans h.mediaGeneration
  firstKey := h'.firstKey.trans h.firstKey
  admitted := h'.admitted.trans h.admitted
  withheld := by
    rcases h'.withheld with heq' | ⟨hviewers, hcache, hle, hbound⟩
    · rcases h.withheld with heq | ⟨hviewers, hcache, hle, hbound⟩
      · exact .inl (heq'.trans heq)
      · exact .inr ⟨h'.entries_nil hviewers, h'.cache_nil hcache, heq' ▸ hle, heq' ▸ hbound⟩
    · refine .inr ⟨hviewers, hcache, h.withheld_le.trans hle, hbound.trans ?_⟩
      rw [h.generation]
      exact max_le h.withheld_bound (Nat.le_max_right _ _)
  cache := by
    rcases h'.cache with hnil | hcache'
    · exact .inl hnil
    · exact h.cache.imp hcache'.trans hcache'.trans
  viewers other v'' hv'' := by
    obtain ⟨v', hv', hopen', hlane'⟩ := h'.viewers other v'' hv''
    obtain ⟨v, hv, hopen, hlane⟩ := h.viewers other v' hv'
    refine ⟨v, hv, fun ho => hopen (hopen' ho), ?_⟩
    rcases hlane' with hwaits | ⟨hwaiting', hindex', hcache'⟩
    · exact .inl hwaits
    · rcases hlane with hwaits | ⟨hwaiting, hindex, hcache⟩
      · exact .inl ⟨hwaiting'.trans hwaits.1, hindex'.trans hwaits.2⟩
      · refine .inr ⟨hwaiting'.trans hwaiting, hindex'.trans hindex, fun hne => ?_⟩
        have h₁ := hcache hne
        have h₂ := hcache' (hindex ▸ hne)
        rw [ne_eq, not_not] at h₁ h₂
        exact fun hcleared => hcleared (h₂.trans h₁)

/-- What leaves the viewers, the cache and the frames as they are. -/
theorem of_same (hoptions : s'.options = s.options) (hhanded : s'.handed = s.handed)
    (hgeneration : s'.generation = s.generation) (hmedia : s'.mediaGeneration = s.mediaGeneration)
    (hkey : s'.firstKey = s.firstKey) (hadmitted : s'.admitted = s.admitted)
    (hwithheld : s'.withheldThrough = s.withheldThrough) (hcache : s'.cache = s.cache)
    (hviewers : s'.viewers = s.viewers) : Still s s' :=
  ⟨hoptions, hhanded, hgeneration, hmedia, hkey, hadmitted, .inl hwithheld, .inr hcache,
    fun _ v hv => ⟨v, hviewers ▸ hv, .refl (fun h => h hcache) v⟩⟩

end Still

namespace Quiet

/-- What neither ends the stream nor has it go on. -/
theorem of_still (h : Still s s') (hsent : s'.sent = s.sent) (hended : s'.ended = s.ended) : Quiet s s' :=
  ⟨h, hsent, (hended ▸ ·), (.inl <| hended ▸ ·)⟩

theorem refl (s : Stream) : Quiet s s :=
  .of_still (.of_same rfl rfl rfl rfl rfl rfl rfl rfl rfl) rfl rfl

theorem trans {m : Stream} (h : Quiet s m) (h' : Quiet m t) : Quiet s t where
  toStill := h.toStill.trans h'.toStill
  sent := h'.sent.trans h.sent
  ended hs := h'.ended (h.ended hs)
  deserted hs := by
    rcases h'.deserted hs with hended | hnil
    · exact (h.deserted hended).imp_right h'.entries_nil
    · exact .inr hnil

theorem foldl {β : Type} {f : Stream → β → Stream} (hf : ∀ s b, Quiet s (f s b)) (bs : List β) (s : Stream) :
    Quiet s (bs.foldl f s) := by
  induction bs generalizing s with
  | nil => exact refl s
  | cons b bs ih => exact (hf s b).trans (ih (f s b))

end Quiet

/-! ## Each function -/

theorem quiet_send (s : Stream) (message : PhoneMessage) : Quiet s (s.send message) :=
  .of_still (.of_same rfl rfl rfl rfl rfl rfl rfl rfl rfl) rfl rfl

theorem quiet_resetInput (s : Stream) : Quiet s s.resetInput := by
  unfold Stream.resetInput
  split
  · exact .refl s
  · exact .of_still (.of_same rfl rfl rfl rfl rfl rfl rfl rfl rfl) rfl rfl

theorem quiet_publishState (s : Stream) (next : DisplayViewerState) : Quiet s (s.publishState next) := by
  unfold Stream.publishState
  split
  · exact .refl s
  · dsimp only
    split
    · exact (quiet_resetInput s).trans (.of_still (.of_same rfl rfl rfl rfl rfl rfl rfl rfl rfl) rfl rfl)
    · exact .of_still (.of_same rfl rfl rfl rfl rfl rfl rfl rfl rfl) rfl rfl

/-- A viewer in a replay is sent nothing more of it. -/
theorem stays_dropReplay (cleared : Prop) (v : Viewer) : v.Stays cleared v.dropReplay := by
  unfold Viewer.dropReplay
  split
  · rename_i hnone
    exact ⟨id, .inr ⟨rfl, rfl, fun hne => absurd hnone hne⟩⟩
  · exact ⟨id, .inl ⟨rfl, rfl⟩⟩

theorem quiet_clearCache (s : Stream) : Quiet s s.clearCache where
  options := rfl
  sent := rfl
  handed := rfl
  generation := rfl
  mediaGeneration := rfl
  firstKey := rfl
  admitted := rfl
  ended := id
  deserted := .inl
  withheld := .inl rfl
  cache := .inl rfl
  viewers id v' hv' := by
    simp only [clearCache, mapViewers, OrderedMap.get_mapValues] at hv'
    obtain ⟨v, hv, rfl⟩ := Option.map_eq_some_iff.mp hv'
    exact ⟨v, hv, stays_dropReplay _ v⟩

/-- Viewers change, or go. -/
theorem quiet_viewers {viewers : OrderedMap Nat Viewer} (h : ∀ id v', viewers.get id = some v' →
    ∃ v, s.viewers.get id = some v ∧ v.Stays False v') : Quiet s { s with viewers } := by
  refine .of_still ⟨rfl, rfl, rfl, rfl, rfl, rfl, .inl rfl, .inr rfl, fun id v' hv' => ?_⟩ rfl rfl
  obtain ⟨v, hv, hstays⟩ := h id v' hv'
  exact ⟨v, hv, hstays.isOpen, hstays.lane.imp_right fun h => ⟨h.1, h.2.1, fun _ hne => hne rfl⟩⟩

theorem quiet_setViewer (hv : s.viewers.get id = some v) (hstays : v.Stays False v') :
    Quiet s (s.setViewer id v') := by
  refine quiet_viewers fun other u hu => ?_
  rw [OrderedMap.get_set] at hu
  split at hu
  · rename_i heq
    obtain rfl := Option.some.inj hu
    exact ⟨v, heq ▸ hv, hstays⟩
  · exact ⟨u, hu, .refl (fun h => h) u⟩

theorem quiet_modify (s : Stream) (id : Nat) {f : Viewer → Viewer} (hf : ∀ v : Viewer, v.Stays False (f v)) :
    Quiet s { s with viewers := s.viewers.modify id f } := by
  refine quiet_viewers fun other u hu => ?_
  rw [OrderedMap.get_modify] at hu
  split at hu
  · rename_i heq
    obtain ⟨v, hv, rfl⟩ := Option.map_eq_some_iff.mp hu
    exact ⟨v, heq ▸ hv, hf v⟩
  · exact ⟨u, hu, .refl (fun h => h) u⟩

/-- A viewer that is skipped waits for a key. -/
theorem stays_skip (cleared : Prop) (v : Viewer) : v.Stays cleared v.skip := ⟨id, .inl ⟨rfl, rfl⟩⟩

theorem quiet_removeViewer (s : Stream) (id : Nat) : Quiet s (s.removeViewer id) := by
  unfold Stream.removeViewer
  split
  · exact .refl s
  · dsimp only
    have hdelete : Quiet s { s with viewers := s.viewers.delete id } := by
      refine quiet_viewers fun other v' hv' => ⟨v', ?_, .refl (fun h => h) v'⟩
      rw [OrderedMap.get_delete] at hv'
      split at hv'
      · cases hv'
      · exact hv'
    refine hdelete.trans ?_
    split
    · exact (quiet_resetInput _).trans (.of_still (.of_same rfl rfl rfl rfl rfl rfl rfl rfl rfl) rfl rfl)
    · exact .of_still (.of_same rfl rfl rfl rfl rfl rfl rfl rfl rfl) rfl rfl

theorem quiet_finish (s : Stream) (terminal : Bool) : Quiet s (s.finish terminal) := by
  unfold Stream.finish
  split
  · exact .refl s
  · dsimp only
    have hstate : Quiet s (if terminal && !s.state.state.isSettled then
        s.publishState { s.state with state := .stopped, generation := s.generation, reason := none } else s) := by
      split
      · exact quiet_publishState s _
      · exact .refl s
    generalize (if terminal && !s.state.state.isSettled then _ else s) = s₁ at hstate
    refine hstate.trans ?_
    generalize hclosed : ({ s₁ with ended := true }.resetInput.send .stop : Stream) = s₂
    have hended : s₂.ended = true := by
      rw [← hclosed]
      exact ended_resetInput _
    have hsent : s₂.sent = s₁.sent := by
      rw [← hclosed]
      unfold Stream.resetInput
      split <;> rfl
    have hstill : Still s₁ s₂ := by
      subst hclosed
      unfold Stream.resetInput
      split <;> exact .of_same rfl rfl rfl rfl rfl rfl rfl rfl rfl
    have hgone := Quiet.foldl quiet_removeViewer s₂.viewers.keys s₂
    exact ⟨hstill.trans hgone.toStill, hgone.sent.trans hsent, fun _ => hgone.ended hended, fun _ => .inr (entries_foldl_removeViewer s₂)⟩

theorem ended_finish (s : Stream) (terminal : Bool) : (s.finish terminal).ended = true := by
  unfold Stream.finish
  split
  · rename_i h
    exact h
  · dsimp only
    refine (Quiet.foldl quiet_removeViewer _ _).ended ?_
    exact ((quiet_resetInput _).trans (quiet_send _ .stop)).ended rfl

/-- A stream that has ended has no viewers. -/
theorem entries_finish (h : s.ended = false) (terminal : Bool) : (s.finish terminal).viewers.entries = [] := by
  rcases (quiet_finish s terminal).deserted (ended_finish s terminal) with hended | hnil
  · rw [h] at hended
    cases hended
  · exact hnil

theorem quiet_unasked (s : Stream) (key : DemandKey) : Quiet s (s.unasked key) :=
  Quiet.trans (m := { s with demandKey := some key })
    (.of_still (.of_same rfl rfl rfl rfl rfl rfl rfl rfl rfl) rfl rfl) (quiet_clearCache _)

theorem quiet_warmed (s : Stream) (key : DemandKey) : Quiet s (s.warmed key) :=
  (quiet_unasked s key).trans <| Quiet.trans (m := { s.unasked key with stopping := true })
    (.of_still (.of_same rfl rfl rfl rfl rfl rfl rfl rfl rfl) rfl rfl) (quiet_publishState _ _)

theorem quiet_unviewed {key : DemandKey} (h : s.viewers.entries = []) : Quiet s (s.unviewed key) := by
  refine (quiet_unasked s key).trans (Quiet.trans ?_ (quiet_publishState _ _))
  refine .of_still ⟨rfl, rfl, rfl, rfl, rfl, rfl, .inr ⟨?_, rfl, Nat.le_max_left _ _, Nat.le_refl _⟩, .inr rfl, ?_⟩
    rfl rfl
  · exact (quiet_unasked s key).entries_nil h
  · exact fun _ v hv => ⟨v, hv, .refl (fun h => h rfl) v⟩

theorem Demands.quiet (h : Demands s s') : Quiet s s' := by
  cases h with
  | asked => exact .of_still (.of_same rfl rfl rfl rfl rfl rfl rfl rfl rfl) rfl rfl
  | asks => exact .of_still (.of_same rfl rfl rfl rfl rfl rfl rfl rfl rfl) rfl rfl
  | ends => exact (quiet_unasked s _).trans (quiet_finish _ true)
  | warms evicts =>
    refine Quiet.trans ?_ (quiet_send _ _)
    split
    · exact (quiet_warmed s _).trans (quiet_finish _ true)
    · exact quiet_warmed s _
  | withholds hsources hnil =>
    refine (quiet_unviewed ?_).trans (quiet_send _ _)
    rw [hnil, eq_comm, sourcesOf_eq_nil_iff] at hsources
    exact List.map_eq_nil_iff.mp hsources

theorem quiet_demand (w : World) (s : Stream) : Quiet s (s.demand w) := (demands_demand w s).quiet

theorem quiet_withoutSource (s : Stream) (source : DisplaySource) : Quiet s (s.withoutSource source) :=
  Quiet.trans (m := { s with authorities := s.authorities.delete source.key })
    (.of_still (.of_same rfl rfl rfl rfl rfl rfl rfl rfl rfl) rfl rfl) (Quiet.foldl quiet_removeViewer _ _)

theorem quiet_endSource (w : World) (s : Stream) (source : DisplaySource) : Quiet s (s.endSource w source) := by
  rcases endSource_cases w s source with ⟨-, heq⟩ | ⟨-, heq⟩ | heq | heq
  · rw [heq]
    exact .refl s
  · rw [heq]
    exact .of_still (.of_same rfl rfl rfl rfl rfl rfl rfl rfl rfl) rfl rfl
  · rw [heq]
    exact (quiet_withoutSource s source).trans (quiet_finish _ _)
  · rw [heq]
    exact (quiet_withoutSource s source).trans (quiet_demand w _)

/-- A viewer that is gone does not come again. -/
theorem Still.get_eq_none (h : Still s s') (hs : s.viewers.get id = none) : s'.viewers.get id = none := by
  cases hv : s'.viewers.get id with
  | none => rfl
  | some v' =>
    obtain ⟨v, hv, -⟩ := h.viewers id v' hv
    rw [hs] at hv
    cases hv

/-- A viewer whose source ended is gone. -/
theorem viewers_endSource (w : World) (hs : s.ended = false) (hv : s.viewers.get id = some v) :
    (s.endSource w v.source).viewers.get id = none := by
  have hwithout : (s.withoutSource v.source).viewers.get id = none := by
    rw [viewers_withoutSource, hv, Option.filter_some, if_neg (by simp)]
  rcases endSource_cases w s v.source with ⟨hended, -⟩ | ⟨hnone, -⟩ | heq | heq
  · rw [hs] at hended
    cases hended
  · exact absurd rfl (hnone id v hv)
  · rw [heq]
    exact (quiet_finish _ _).get_eq_none hwithout
  · rw [heq]
    exact (quiet_demand w _).get_eq_none hwithout

theorem quiet_viewerLive (w : World) (s : Stream) (id : Nat) : Quiet s (s.viewerLive w id).2 := by
  rcases viewerLive_cases w s id with ⟨-, heq⟩ | ⟨v, -, heq | heq⟩
  · rw [heq]
    exact .refl s
  · rw [heq]
    exact .refl s
  · rw [heq]
    exact quiet_endSource w s v.source

theorem quiet_failOwnerSources (w : World) (s : Stream) : Quiet s (s.failOwnerSources w) := by
  unfold Stream.failOwnerSources
  split
  · exact Quiet.foldl (fun s (v : Viewer) => quiet_endSource w s v.source) _ s
  · exact .refl s

/-- A stream whose capture fails ends, and nothing of it is handed on. -/
theorem failCapture_ended (w : World) (s : Stream) (reason : String) : (s.failCapture w reason).ended = true := by
  unfold Stream.failCapture
  split
  · rename_i h
    exact h
  · exact ended_finish _ _

/-- Nothing of it is handed on, and no viewer of it stays. -/
theorem failCapture_over (w : World) (s : Stream) (reason : String) (hs : s.ended = false) :
    (s.failCapture w reason).handed = s.handed ∧ (s.failCapture w reason).sent = s.sent ∧
      (s.failCapture w reason).viewers.entries = [] := by
  have hended := failCapture_ended w s reason
  unfold Stream.failCapture at hended ⊢
  rw [if_neg (by simp [hs])] at hended ⊢
  have hquiet := (quiet_publishState { s.clearCache with withheldThrough := maxSafeInteger }
    ⟨.failed, s.generation, 0, 0, some reason⟩).trans (quiet_failOwnerSources w _) |>.trans (quiet_finish _ true)
  refine ⟨hquiet.handed, hquiet.sent, ?_⟩
  rcases hquiet.deserted hended with hs' | hnil
  · exact nomatch hs.symm.trans hs'
  · exact hnil

end Opensteer.DisplayStreamHub
