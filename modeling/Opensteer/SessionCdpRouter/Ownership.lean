import Mathlib.Data.List.Basic
import Opensteer.Core.Errors
import Opensteer.SessionCdpRouter.Model

/-!
# Target ownership

What the router's maps say of ownership is a `View`, and most of what it does
leaves the view as it is (the `view_` lemmas). A claim, a release, a session's
start and end, and an attach change it, and keep it sound (`View.Ok`): a target
has the owner that counts it among its own, and a channel's target is its
session's. So it is in every run (`target_ownership`). The handler of browser
events throws exactly when it is told that a session's page opened a target that
another session already owns.
-/

namespace Opensteer.SessionCdpRouter

open Router

/-! ## Views -/

structure SessionView where
  sessionId : Text
  channels : List Text
  ownedTargetIds : List Text

/-- What the router's maps say of ownership. -/
structure View where
  owner : Text → Option Text
  session : Text → Option SessionView
  unclaimed : Text → Bool
  /-- The target of each channel there was. -/
  target : Text → Option Text
  /-- Whether the handler of browser events has thrown. -/
  threw : Bool

def SessionState.view (state : SessionState) : SessionView :=
  ⟨state.sessionId, state.channels, state.ownedTargetIds⟩

def Router.view (r : Router) : View where
  owner := r.ownerByTargetId.get
  session sessionId := (r.sessions.get sessionId).map SessionState.view
  unclaimed targetId := (r.unclaimedPages.get targetId).isSome
  target id := (r.attached.get id).map AttachedChannel.physicalTargetId
  threw := r.handlerThrew

/-- Each target has the session that counts it among its own, and each channel of a
session is of a target of its own. -/
structure View.Ok (max : Nat) (v : View) : Prop where
  ids : ∀ sessionId s, v.session sessionId = some s → s.sessionId = sessionId
  owned : ∀ targetId sessionId, v.owner targetId = some sessionId ↔
    ∃ s, v.session sessionId = some s ∧ targetId ∈ s.ownedTargetIds
  ownedNodup : ∀ sessionId s, v.session sessionId = some s → s.ownedTargetIds.Nodup
  capacity : ∀ sessionId s, v.session sessionId = some s → s.ownedTargetIds.length ≤ max
  unclaimed : ∀ targetId, v.unclaimed targetId = true → v.owner targetId = none
  channels : ∀ sessionId s id, v.session sessionId = some s → id ∈ s.channels →
    ∃ targetId, v.target id = some targetId ∧ v.owner targetId = some sessionId
  channelsNodup : ∀ sessionId s, v.session sessionId = some s → s.channels.Nodup

variable {o : Options} {r r' : Router} {session : SessionRef} {max : Nat} {v : View}

/-! ## What a step does -/

/-- The target's owner hears of an event, and then a target destroyed is released. -/
theorem announce_cases (o : Options) (r : Router) (method targetId : Text) (parameters : Fields) :
    ∃ r₁, (r₁ = r ∨ (∃ owner, r.ownerOf targetId = some owner ∧
          r₁ = appendEvent o r owner.ref method parameters none none) ∨
        (r.ownerOf targetId = none ∧ r₁ = trackUnclaimedPage r method targetId parameters)) ∧
      (announce o r method targetId parameters = r₁ ∨ announce o r method targetId parameters =
        { releaseTarget r₁ targetId with gone := r₁.gone ++ [targetId] }) := by
  unfold announce
  dsimp only
  refine ⟨_, ?_, (ite_eq_or_eq ..).symm⟩
  split
  · rename_i owner howner
    rcases ite_eq_or_eq (owner.discoverTargets = true)
      (appendEvent o r owner.ref method parameters none none) r with h | h
    · exact .inr (.inl ⟨owner, howner, h⟩)
    · exact .inl h
  · exact .inr (.inr ⟨‹_›, rfl⟩)

theorem step_browserEvent {method : Text} {parameters : Fields}
    (hstep : (machine o).step r (.browserEvent method parameters) = some r') :
    handleBrowserEvent o r method parameters = .ok r' ∨
      ∃ error, handleBrowserEvent o r method parameters = .error error ∧
        r' = { r with handlerThrew := true } := by
  simp only [machine, step] at hstep
  split at hstep
  · rename_i r₁ hevent
    obtain rfl := Option.some.inj hstep
    exact .inl hevent
  · rename_i error hevent
    exact .inr ⟨error, hevent, (Option.some.inj hstep).symm⟩

theorem step_pageEvent {id method : Text} {parameters : Fields}
    (hstep : (machine o).step r (.pageEvent id method parameters) = some r') :
    ∃ attached, r.attached.get id = some attached ∧
      r' = handlePageEvent o r id attached method parameters := by
  simp only [machine, step] at hstep
  split at hstep
  · rename_i attached hattached
    split at hstep
    · cases hstep
    · exact ⟨attached, hattached, (Option.some.inj hstep).symm⟩
  · cases hstep

theorem step_send {call : Nat} {sessionId : Text} {command : CdpCommand}
    (hstep : (machine o).step r (.send call sessionId command) = some r') :
    r.calls.get call = none ∧ r' = r.orFail call (send o r call sessionId command) := by
  simp only [machine, step] at hstep
  split at hstep
  · cases hstep
  · rename_i hcall
    exact ⟨by simpa using hcall, (Option.some.inj hstep).symm⟩

/-! ## What leaves the view as it is -/

theorem state?_eq_some {state : SessionState} (h : r.state? session = some state) :
    r.sessions.get session.sessionId = some state ∧ state.instance_ = session.instance_ := by
  obtain ⟨hs, hi⟩ := Option.filter_eq_some_iff.mp h
  exact ⟨hs, of_decide_eq_true hi⟩

/-- A state object that changes nothing of its session's view. -/
theorem view_setSession {sessionId : Text} {state state' : SessionState}
    (hs : r.sessions.get sessionId = some state) (hview : state'.view = state.view) :
    Router.view { r with sessions := r.sessions.set sessionId state' } = r.view := by
  have hsession : ∀ id, ((r.sessions.set sessionId state').get id).map SessionState.view =
      (r.sessions.get id).map SessionState.view := by
    intro id
    rw [OrderedMap.get_set]
    split
    · rename_i h
      rw [← h, hs, Option.map_some, Option.map_some, hview]
    · rfl
  simp only [Router.view, hsession]

@[simp] theorem view_appendEvent (method : Text) (parameters : Fields) (id : Option Text)
    (contexts : Option ExecutionContextInventory) :
    (appendEvent o r session method parameters id contexts).view = r.view := by
  unfold appendEvent
  cases hs : r.state? session with
  | none => rfl
  | some state =>
    exact view_setSession (r := { r with outputs := _ }) (state?_eq_some hs).1 rfl

@[simp] theorem view_suspend (call : Nat) (suspended : Suspended) :
    (suspend r call suspended).view = r.view := rfl

@[simp] theorem view_fail (call : Nat) (failure : Failure) : (fail r call failure).view = r.view := rfl

@[simp] theorem view_reply (call : Nat) (result : Json) (contexts : Option ExecutionContextInventory) :
    (reply o r call result contexts).view = r.view := by
  unfold reply
  split <;> rfl

@[simp] theorem view_sendBackend (call : Nat) (method : Text) (targetId : Option Text)
    (suspended : Suspended) : (sendBackend r call method targetId suspended).view = r.view := rfl

@[simp] theorem view_sendPage (call : Nat) (id method : Text) (parameters : Option Fields)
    (contexts : ExecutionContextInventory) :
    (sendPage r call id method parameters contexts).view = r.view := rfl

theorem view_setAttached {id : Text} {f : AttachedChannel → AttachedChannel}
    (hf : ∀ a, (f a).physicalTargetId = a.physicalTargetId) : (setAttached r id f).view = r.view := by
  have htarget : ∀ id', ((r.attached.modify id f).get id').map AttachedChannel.physicalTargetId =
      (r.attached.get id').map AttachedChannel.physicalTargetId := by
    intro id'
    rw [OrderedMap.get_modify]
    split
    · rename_i h
      rw [← h, Option.map_map]
      exact congrArg (Option.map · _) (funext hf)
    · rfl
  simp only [Router.view, setAttached, htarget]

theorem view_foldl {α : Type} {f : Router → α → Router} (hf : ∀ r a, (f r a).view = r.view)
    (as : List α) (r : Router) : (as.foldl f r).view = r.view := by
  induction as generalizing r with
  | nil => rfl
  | cons a as ih => rw [List.foldl_cons, ih, hf]

/-! ## What changes it -/

def View.setSession (v : View) (sessionId : Text) (s : Option SessionView) : View :=
  { v with session := fun id => if sessionId = id then s else v.session id }

def View.setOwner (v : View) (targetId : Text) (owner : Option Text) : View :=
  { v with owner := fun id => if targetId = id then owner else v.owner id }

/-- The target is no longer unclaimed. -/
def View.claimed (v : View) (targetId : Text) : View :=
  { v with unclaimed := fun id => if targetId = id then false else v.unclaimed id }

/-- `#claimTarget`: the session owns the target, which no other did. -/
def View.claim (v : View) (s : SessionView) (targetId : Text) : View :=
  ((v.setSession s.sessionId (some { s with
    ownedTargetIds := if targetId ∈ s.ownedTargetIds then s.ownedTargetIds
      else s.ownedTargetIds ++ [targetId] })).setOwner targetId (some s.sessionId)).claimed targetId

theorem claimTarget_spec {state : SessionState} {targetId : Text}
    (h : claimTarget o r state targetId = .ok r') :
    (∀ owner, r.ownerByTargetId.get targetId = some owner → owner = state.sessionId) ∧
    state.ownedTargetIds.length < o.limits.maxTargetsPerSession ∧
    r'.view = r.view.claim state.view targetId := by
  unfold claimTarget at h
  split at h
  · cases h
  rename_i howner
  unfold assertTargetCapacity at h
  by_cases hcapacity : o.limits.maxTargetsPerSession ≤ state.ownedTargetIds.length
  · rw [if_pos hcapacity] at h
    cases h
  rw [if_neg hcapacity] at h
  refine ⟨fun owner ho => ?_, Nat.lt_of_not_le hcapacity, ?_⟩
  · rw [ho] at howner
    simpa using howner
  -- The maps are set, and the page is no longer unclaimed if it was announced.
  have hview : ∀ r₁ : Router,
      r₁.ownerByTargetId = r.ownerByTargetId.set targetId state.sessionId →
      (∀ id, (r₁.sessions.get id).map SessionState.view =
        (r.view.claim state.view targetId).session id) →
      (∀ id, (r₁.unclaimedPages.get id).isSome = (r.view.claim state.view targetId).unclaimed id) →
      r₁.attached = r.attached → r₁.handlerThrew = r.handlerThrew →
        r₁.view = r.view.claim state.view targetId := by
    intro r₁ hown hsessions hunclaimed hattached hthrew
    simp only [Router.view, View.claim, View.setSession, View.setOwner, View.claimed, View.mk.injEq]
    refine ⟨funext fun id => ?_, funext hsessions, funext hunclaimed, ?_, hthrew⟩
    · rw [hown, OrderedMap.get_set]
      rfl
    · rw [hattached]
  have hsessions : ∀ id, ((r.sessions.set state.sessionId { state with
      ownedTargetIds := if targetId ∈ state.ownedTargetIds then state.ownedTargetIds
        else state.ownedTargetIds ++ [targetId] }).get id).map SessionState.view =
      (r.view.claim state.view targetId).session id := by
    intro id
    rw [OrderedMap.get_set]
    simp only [View.claim, View.setSession, View.setOwner, View.claimed, Router.view]
    by_cases hid : state.sessionId = id
    · rw [if_pos hid]
      exact (if_pos hid).symm
    · rw [if_neg hid]
      exact (if_neg hid).symm
  simp only [bind, Except.bind, pure, Except.pure] at h
  cases hp : r.unclaimedPages.get targetId with
  | none =>
    simp only [hp, Except.ok.injEq] at h
    subst h
    refine hview _ rfl hsessions (fun id => ?_) rfl rfl
    simp only [View.claim, View.setSession, View.setOwner, View.claimed, Router.view]
    split
    · rename_i hid
      rw [← hid, hp]
      rfl
    · rfl
  | some announced =>
    have hunclaimed : ∀ id, ((r.unclaimedPages.delete targetId).get id).isSome =
        (r.view.claim state.view targetId).unclaimed id := by
      intro id
      rw [OrderedMap.get_delete]
      simp only [View.claim, View.setSession, View.setOwner, View.claimed, Router.view]
      split <;> rfl
    simp only [hp] at h
    split at h
    · obtain rfl := Except.ok.inj h
      rw [view_appendEvent]
      exact hview _ rfl hsessions hunclaimed rfl rfl
    · obtain rfl := Except.ok.inj h
      exact hview _ rfl hsessions hunclaimed rfl rfl

theorem View.Ok.claim (h : v.Ok max) {s : SessionView} {sessionId targetId : Text}
    (hs : v.session sessionId = some s) (howner : ∀ owner, v.owner targetId = some owner → owner = sessionId)
    (hcapacity : s.ownedTargetIds.length < max) : (v.claim s targetId).Ok max := by
  obtain rfl := h.ids sessionId s hs
  let s' : SessionView := { s with
    ownedTargetIds := if targetId ∈ s.ownedTargetIds then s.ownedTargetIds
      else s.ownedTargetIds ++ [targetId] }
  have hcases : ∀ id s₁, (v.claim s targetId).session id = some s₁ →
      (s.sessionId = id ∧ s₁ = s') ∨ (s.sessionId ≠ id ∧ v.session id = some s₁) := by
    intro id s₁ h₁
    simp only [View.claim, View.setSession, View.setOwner, View.claimed] at h₁
    split at h₁
    · exact .inl ⟨‹_›, (Option.some.inj h₁).symm⟩
    · exact .inr ⟨‹_›, h₁⟩
  have hmem : ∀ t, t ∈ s'.ownedTargetIds ↔ t ∈ s.ownedTargetIds ∨ t = targetId := by
    intro t
    simp only [s']
    split
    · rename_i ht
      exact ⟨.inl, fun h => h.elim id fun e => e ▸ ht⟩
    · simp
  have hother : ∀ id s₁, s.sessionId ≠ id → v.session id = some s₁ → targetId ∉ s₁.ownedTargetIds := by
    intro id s₁ hne hs₁ ht
    exact hne (howner id ((h.owned targetId id).mpr ⟨s₁, hs₁, ht⟩)).symm
  refine ⟨fun id s₁ hs₁ => ?_, fun t id => ?_, fun id s₁ hs₁ => ?_, fun id s₁ hs₁ => ?_,
    fun t ht => ?_, fun id s₁ channel hs₁ hchannel => ?_, fun id s₁ hs₁ => ?_⟩
  · rcases hcases id s₁ hs₁ with ⟨rfl, rfl⟩ | ⟨-, hs₁⟩
    · rfl
    · exact h.ids id s₁ hs₁
  · simp only [View.claim, View.setSession, View.setOwner, View.claimed]
    by_cases hid : s.sessionId = id
    · subst hid
      simp only [if_true, Option.some.injEq, exists_eq_left']
      rw [hmem t]
      by_cases ht : targetId = t
      · simp [ht]
      · rw [if_neg ht, h.owned]
        constructor
        · rintro ⟨s₁, hs₁, hm⟩
          obtain rfl := Option.some.inj (hs.symm.trans hs₁)
          exact .inl hm
        · rintro (hm | rfl)
          · exact ⟨s, hs, hm⟩
          · exact absurd rfl ht
    · simp only [if_neg hid]
      by_cases ht : targetId = t
      · subst ht
        rw [if_pos rfl]
        constructor
        · intro he
          exact absurd (Option.some.inj he) hid
        · rintro ⟨s₁, hs₁, hm⟩
          exact absurd hm (hother id s₁ hid hs₁)
      · rw [if_neg ht]
        exact h.owned t id
  · rcases hcases id s₁ hs₁ with ⟨rfl, rfl⟩ | ⟨-, hs₁⟩
    · simp only [s']
      have hnd := h.ownedNodup _ s hs
      split
      · exact hnd
      · rename_i ht
        exact List.nodup_append.mpr ⟨hnd, by simp, by
          intro a ha b hb
          obtain rfl := List.mem_singleton.mp hb
          exact fun e => ht (e ▸ ha)⟩
    · exact h.ownedNodup id s₁ hs₁
  · rcases hcases id s₁ hs₁ with ⟨rfl, rfl⟩ | ⟨-, hs₁⟩
    · simp only [s']
      split
      · omega
      · rw [List.length_append, List.length_singleton]
        omega
    · exact h.capacity id s₁ hs₁
  · simp only [View.claim, View.setSession, View.setOwner, View.claimed] at ht ⊢
    split at ht
    · cases ht
    · rename_i hne
      rw [if_neg hne]
      exact h.unclaimed t ht
  · have hold : ∃ s₂, v.session id = some s₂ ∧ channel ∈ s₂.channels := by
      rcases hcases id s₁ hs₁ with ⟨rfl, rfl⟩ | ⟨-, hs₁⟩
      · exact ⟨s, hs, hchannel⟩
      · exact ⟨s₁, hs₁, hchannel⟩
    obtain ⟨s₂, hs₂, hc⟩ := hold
    obtain ⟨t, ht, ho⟩ := h.channels id s₂ channel hs₂ hc
    refine ⟨t, ht, ?_⟩
    simp only [View.claim, View.setSession, View.setOwner, View.claimed]
    split
    · rename_i he
      subst he
      rw [howner id ho]
    · exact ho
  · rcases hcases id s₁ hs₁ with ⟨rfl, rfl⟩ | ⟨-, hs₁⟩
    · exact h.channelsNodup _ s hs
    · exact h.channelsNodup id s₁ hs₁

/-- `#endChannel`, of channels of one session. -/
def View.endChannels (v : View) (sessionId : Text) (ids : List Text) : View :=
  { v with session := fun id =>
      if sessionId = id then
        (v.session id).map fun s => { s with channels := s.channels.diff ids }
      else v.session id }

theorem view_endChannels (sessionId : Text) (ids : List Text) (r : Router) :
    (ids.foldl (fun r id => endChannel r sessionId id) r).view = r.view.endChannels sessionId ids := by
  have hone : ∀ (r : Router) (id : Text), (endChannel r sessionId id).view =
      r.view.endChannels sessionId [id] := by
    intro r id
    have htarget : ∀ id', ((r.attached.modify id fun a => { a with ended := true }).get id').map
        AttachedChannel.physicalTargetId = (r.attached.get id').map AttachedChannel.physicalTargetId := by
      intro id'
      rw [OrderedMap.get_modify]
      split
      · rename_i h
        rw [← h, Option.map_map]
        rfl
      · rfl
    simp only [Router.view, endChannel, View.endChannels, htarget, View.mk.injEq, true_and, and_true]
    funext id'
    rw [OrderedMap.get_modify]
    split
    · rename_i h
      rw [← h, Option.map_map, Option.map_map]
      exact congrArg (Option.map · _) (funext fun state => by simp [SessionState.view])
    · rfl
  induction ids generalizing r with
  | nil =>
    simp only [List.foldl_nil, View.endChannels, List.diff_nil]
    have hsame : ∀ id, (if sessionId = id then (r.view.session id).map fun s => s
        else r.view.session id) = r.view.session id := by
      intro id
      split
      · simp
      · rfl
    rw [funext hsame]
  | cons id ids ih =>
    rw [List.foldl_cons, ih, hone]
    simp only [View.endChannels, View.mk.injEq, true_and, and_true]
    funext id'
    split
    · rename_i h
      rw [Option.map_map]
      simp [Function.comp_def]
    · rfl

theorem View.Ok.endChannels (h : v.Ok max) (sessionId : Text) (ids : List Text) :
    (v.endChannels sessionId ids).Ok max := by
  have hsub : ∀ id s, (v.endChannels sessionId ids).session id = some s →
      ∃ s', v.session id = some s' ∧ s.sessionId = s'.sessionId ∧
        s.ownedTargetIds = s'.ownedTargetIds ∧ s.channels.Sublist s'.channels := by
    intro id s hs
    simp only [View.endChannels] at hs
    split at hs
    · obtain ⟨s', hs', rfl⟩ := Option.map_eq_some_iff.mp hs
      exact ⟨s', hs', rfl, rfl, List.diff_sublist ..⟩
    · exact ⟨s, hs, rfl, rfl, List.Sublist.refl _⟩
  refine ⟨fun id s hs => ?_, fun t id => ?_, fun id s hs => ?_, fun id s hs => ?_, h.unclaimed,
    fun id s channel hs hc => ?_, fun id s hs => ?_⟩
  · obtain ⟨s', hs', hid, -⟩ := hsub id s hs
    exact hid.trans (h.ids id s' hs')
  · change v.owner t = some id ↔ _
    rw [h.owned]
    simp only [View.endChannels]
    split
    · simp only [Option.map_eq_some_iff]
      constructor
      · rintro ⟨s, hs, ht⟩
        exact ⟨_, ⟨s, hs, rfl⟩, ht⟩
      · rintro ⟨_, ⟨s, hs, rfl⟩, ht⟩
        exact ⟨s, hs, ht⟩
    · rfl
  · obtain ⟨s', hs', -, howned, -⟩ := hsub id s hs
    exact howned ▸ h.ownedNodup id s' hs'
  · obtain ⟨s', hs', -, howned, -⟩ := hsub id s hs
    exact howned ▸ h.capacity id s' hs'
  · obtain ⟨s', hs', -, -, hchannels⟩ := hsub id s hs
    exact h.channels id s' channel hs' (hchannels.subset hc)
  · obtain ⟨s', hs', -, -, hchannels⟩ := hsub id s hs
    exact (h.channelsNodup id s' hs').sublist hchannels

/-- `#releaseTarget`: its owner counts it no more, and has no channel of it. -/
def View.release (v : View) (s : SessionView) (targetId : Text) : View :=
  (v.setSession s.sessionId (some { s with
    ownedTargetIds := s.ownedTargetIds.erase targetId
    channels := s.channels.diff (s.channels.filter fun id => v.target id = some targetId) })).setOwner
    targetId none

theorem releaseTarget_spec (h : r.view.Ok max) (targetId : Text) :
    (r.ownerByTargetId.get targetId = none ∧ releaseTarget r targetId = r) ∨
    ∃ s, r.view.owner targetId = some s.sessionId ∧ r.view.session s.sessionId = some s ∧
      (releaseTarget r targetId).view = r.view.release s targetId := by
  cases ho : r.ownerByTargetId.get targetId with
  | none => exact .inl ⟨rfl, by rw [releaseTarget, ho]⟩
  | some ownerId =>
    obtain ⟨s, hs, -⟩ := (h.owned targetId ownerId).mp ho
    obtain rfl := h.ids ownerId s hs
    obtain ⟨state, hstate, rfl⟩ := Option.map_eq_some_iff.mp hs
    refine .inr ⟨state.view, ho, hs, ?_⟩
    have hfilter : (state.channels.filter fun id => (r.attached.get id).any fun attached =>
        attached.physicalTargetId = targetId) =
        state.channels.filter fun id => r.view.target id = some targetId := by
      refine List.filter_congr fun id _ => ?_
      rw [Bool.eq_iff_iff, decide_eq_true_iff, Option.any_eq_true]
      simp [Router.view, Option.map_eq_some_iff]
    rw [releaseTarget, ho]
    simp only [hstate]
    rw [view_endChannels, hfilter]
    simp only [Router.view, View.endChannels, View.release, View.setSession, View.setOwner, View.mk.injEq,
      and_true]
    refine ⟨funext fun id => ?_, funext fun id => ?_⟩
    · rw [OrderedMap.get_delete]
    · by_cases hid : state.view.sessionId = id
      · rw [if_pos hid, if_pos hid, OrderedMap.get_set, if_pos hid]
        rfl
      · rw [if_neg hid, if_neg hid, OrderedMap.get_set, if_neg hid]

theorem View.Ok.release (h : v.Ok max) {s : SessionView} {targetId : Text}
    (hs : v.session s.sessionId = some s) (howner : v.owner targetId = some s.sessionId) :
    (v.release s targetId).Ok max := by
  have hnd := h.ownedNodup _ s hs
  have hcases : ∀ id s₁, (v.release s targetId).session id = some s₁ →
      (s.sessionId = id ∧ s₁ = { s with
        ownedTargetIds := s.ownedTargetIds.erase targetId
        channels := s.channels.diff (s.channels.filter fun id => v.target id = some targetId) }) ∨
      (s.sessionId ≠ id ∧ v.session id = some s₁) := by
    intro id s₁ h₁
    simp only [View.release, View.setSession, View.setOwner] at h₁
    split at h₁
    · exact .inl ⟨‹_›, (Option.some.inj h₁).symm⟩
    · exact .inr ⟨‹_›, h₁⟩
  refine ⟨fun id s₁ hs₁ => ?_, fun t id => ?_, fun id s₁ hs₁ => ?_, fun id s₁ hs₁ => ?_,
    fun t ht => ?_, fun id s₁ channel hs₁ hchannel => ?_, fun id s₁ hs₁ => ?_⟩
  · rcases hcases id s₁ hs₁ with ⟨rfl, rfl⟩ | ⟨-, hs₁⟩
    · rfl
    · exact h.ids id s₁ hs₁
  · simp only [View.release, View.setSession, View.setOwner]
    by_cases ht : targetId = t
    · subst ht
      rw [if_pos rfl]
      refine ⟨(nomatch ·), ?_⟩
      rintro ⟨s₁, hs₁, hm⟩
      split at hs₁
      · obtain rfl := Option.some.inj hs₁
        exact absurd hm (hnd.not_mem_erase)
      · rename_i hid
        exact absurd (Option.some.inj (howner.symm.trans ((h.owned targetId id).mpr ⟨s₁, hs₁, hm⟩))) hid
    · rw [if_neg ht, h.owned]
      by_cases hid : s.sessionId = id
      · subst hid
        simp only [if_true, Option.some.injEq, exists_eq_left']
        constructor
        · rintro ⟨s₁, hs₁, hm⟩
          obtain rfl := Option.some.inj (hs.symm.trans hs₁)
          exact (List.mem_erase_of_ne (Ne.symm ht)).mpr hm
        · exact fun hm => ⟨s, hs, List.mem_of_mem_erase hm⟩
      · rw [if_neg hid]
  · rcases hcases id s₁ hs₁ with ⟨rfl, rfl⟩ | ⟨-, hs₁⟩
    · exact hnd.erase targetId
    · exact h.ownedNodup id s₁ hs₁
  · rcases hcases id s₁ hs₁ with ⟨rfl, rfl⟩ | ⟨-, hs₁⟩
    · exact (List.length_erase_le).trans (h.capacity _ s hs)
    · exact h.capacity id s₁ hs₁
  · simp only [View.release, View.setSession, View.setOwner] at ht ⊢
    split
    · rfl
    · exact h.unclaimed t ht
  · have hother : ∀ t, v.target channel = some t → t ≠ targetId → v.owner t = some id →
        ∃ t, (v.release s targetId).target channel = some t ∧
          (v.release s targetId).owner t = some id := fun t ht hne ho =>
      ⟨t, ht, by simp only [View.release, View.setOwner, if_neg (Ne.symm hne)]; exact ho⟩
    rcases hcases id s₁ hs₁ with ⟨rfl, rfl⟩ | ⟨hne, hs₁⟩
    · obtain ⟨hc, hnot⟩ := (h.channelsNodup _ s hs).mem_sdiff_iff.mp hchannel
      obtain ⟨t, ht, ho⟩ := h.channels _ s channel hs hc
      refine hother t ht ?_ ho
      rintro rfl
      exact hnot (List.mem_filter.mpr ⟨hc, decide_eq_true ht⟩)
    · obtain ⟨t, ht, ho⟩ := h.channels id s₁ channel hs₁ hchannel
      refine hother t ht ?_ ho
      rintro rfl
      exact hne (Option.some.inj (howner.symm.trans ho))
  · rcases hcases id s₁ hs₁ with ⟨rfl, rfl⟩ | ⟨-, hs₁⟩
    · exact (h.channelsNodup _ s hs).sublist (List.diff_sublist ..)
    · exact h.channelsNodup id s₁ hs₁

theorem ok_releaseTarget (h : r.view.Ok max) (targetId : Text) :
    (releaseTarget r targetId).view.Ok max ∧ (releaseTarget r targetId).view.threw = r.view.threw := by
  rcases releaseTarget_spec h targetId with ⟨-, he⟩ | ⟨s, ho, hs, he⟩
  · rw [he]
    exact ⟨h, rfl⟩
  · rw [he]
    exact ⟨h.release hs ho, rfl⟩

/-! ## Sessions -/

/-- A session starts with its root target. -/
def View.register (v : View) (sessionId rootTargetId : Text) : View :=
  ((v.setSession sessionId (some ⟨sessionId, [], [rootTargetId]⟩)).setOwner rootTargetId
    (some sessionId)).claimed rootTargetId

theorem registerSession_spec {sessionId rootTargetId filesRoot : Text}
    (h : registerSession o r sessionId rootTargetId filesRoot = .ok r') :
    r.view.session sessionId = none ∧ r.view.owner rootTargetId = none ∧
      r'.view = r.view.register sessionId rootTargetId := by
  simp only [registerSession, bind_eq_ok, throwIf_eq_ok] at h
  obtain ⟨-, -, -, -, -, -, -, -, -, hsession, -, -, -, howner, h⟩ := h
  obtain rfl := Except.ok.inj h
  refine ⟨?_, ?_, ?_⟩
  · simpa [Router.view] using hsession
  · simpa [Router.view] using howner
  · simp only [Router.view, View.register, View.setSession, View.setOwner, View.claimed, View.mk.injEq,
      and_true]
    refine ⟨funext fun id => ?_, funext fun id => ?_, funext fun id => ?_⟩
    · rw [OrderedMap.get_set]
    · rw [OrderedMap.get_set]
      split <;> rfl
    · rw [OrderedMap.get_delete]
      split <;> rfl

theorem View.Ok.register (h : v.Ok max) (hmax : 0 < max) {sessionId rootTargetId : Text}
    (hsession : v.session sessionId = none) (howner : v.owner rootTargetId = none) :
    (v.register sessionId rootTargetId).Ok max := by
  have hcases : ∀ id s, (v.register sessionId rootTargetId).session id = some s →
      (sessionId = id ∧ s = ⟨sessionId, [], [rootTargetId]⟩) ∨ (sessionId ≠ id ∧ v.session id = some s) := by
    intro id s hs
    simp only [View.register, View.setSession, View.setOwner, View.claimed] at hs
    split at hs
    · exact .inl ⟨‹_›, (Option.some.inj hs).symm⟩
    · exact .inr ⟨‹_›, hs⟩
  refine ⟨fun id s hs => ?_, fun t id => ?_, fun id s hs => ?_, fun id s hs => ?_,
    fun t ht => ?_, fun id s channel hs hc => ?_, fun id s hs => ?_⟩
  · rcases hcases id s hs with ⟨rfl, rfl⟩ | ⟨-, hs⟩
    · rfl
    · exact h.ids id s hs
  · simp only [View.register, View.setSession, View.setOwner, View.claimed]
    have hold : v.owner t ≠ some sessionId := by
      intro ho
      obtain ⟨s, hs, -⟩ := (h.owned t sessionId).mp ho
      rw [hsession] at hs
      cases hs
    by_cases ht : rootTargetId = t
    · subst ht
      simp only [if_true, Option.some.injEq]
      by_cases hid : sessionId = id
      · simp [hid]
      · simp only [if_neg hid]
        refine ⟨fun he => absurd he hid, ?_⟩
        rintro ⟨s, hs, hm⟩
        have := (h.owned rootTargetId id).mpr ⟨s, hs, hm⟩
        rw [howner] at this
        cases this
    · rw [if_neg ht]
      by_cases hid : sessionId = id
      · subst hid
        simp [hold, Ne.symm ht]
      · simp only [if_neg hid]
        exact h.owned t id
  · rcases hcases id s hs with ⟨rfl, rfl⟩ | ⟨-, hs⟩
    · exact List.nodup_singleton _
    · exact h.ownedNodup id s hs
  · rcases hcases id s hs with ⟨rfl, rfl⟩ | ⟨-, hs⟩
    · exact hmax
    · exact h.capacity id s hs
  · simp only [View.register, View.setSession, View.setOwner, View.claimed] at ht ⊢
    split at ht
    · cases ht
    · rename_i hne
      rw [if_neg hne]
      exact h.unclaimed t ht
  · rcases hcases id s hs with ⟨rfl, rfl⟩ | ⟨-, hs⟩
    · cases hc
    · obtain ⟨t, ht, ho⟩ := h.channels id s channel hs hc
      refine ⟨t, ht, ?_⟩
      simp only [View.register, View.setSession, View.setOwner, View.claimed]
      rw [if_neg (by rintro rfl; rw [howner] at ho; cases ho)]
      exact ho
  · rcases hcases id s hs with ⟨rfl, rfl⟩ | ⟨-, hs⟩
    · exact List.nodup_nil
    · exact h.channelsNodup id s hs

/-- A session ends, and its targets have no owner. -/
def View.unregister (v : View) (sessionId : Text) : View where
  owner := fun id => if v.owner id = some sessionId then none else v.owner id
  session := fun id => if sessionId = id then none else v.session id
  unclaimed := v.unclaimed
  target := v.target
  threw := v.threw

theorem view_unregisterSession (h : r.view.Ok max) (sessionId : Text) :
    (unregisterSession r sessionId).view = r.view.unregister sessionId := by
  unfold unregisterSession
  cases hs : r.sessions.get sessionId with
  | none =>
    simp only [Router.view, View.unregister, View.mk.injEq, and_true]
    refine ⟨funext fun id => ?_, funext fun id => ?_⟩
    · by_cases ho : r.ownerByTargetId.get id = some sessionId
      · obtain ⟨s, hsome, -⟩ := (h.owned id sessionId).mp ho
        simp [Router.view, hs] at hsome
      · exact (if_neg ho).symm
    · split
      · rename_i hid
        rw [← hid, hs]
        rfl
      · rfl
  | some state =>
    dsimp only
    rw [view_endChannels]
    simp only [Router.view, View.endChannels, View.unregister, View.mk.injEq, and_true]
    refine ⟨funext fun id => ?_, funext fun id => ?_⟩
    · rw [OrderedMap.get_foldl_delete]
      have howned := h.owned id sessionId
      simp only [Router.view, hs, Option.map_some, Option.some.injEq, exists_eq_left'] at howned
      by_cases ho : r.ownerByTargetId.get id = some sessionId
      · exact (if_pos (howned.mp ho)).trans (if_pos ho).symm
      · exact (if_neg fun hm => ho (howned.mpr hm)).trans (if_neg ho).symm
    · rw [OrderedMap.get_delete]
      split <;> rfl

theorem View.Ok.unregister (h : v.Ok max) (sessionId : Text) : (v.unregister sessionId).Ok max := by
  have hsub : ∀ id s, (v.unregister sessionId).session id = some s →
      sessionId ≠ id ∧ v.session id = some s := by
    intro id s hs
    simp only [View.unregister] at hs
    split at hs
    · cases hs
    · exact ⟨‹_›, hs⟩
  have howner : ∀ t id, (v.unregister sessionId).owner t = some id ↔
      v.owner t = some id ∧ sessionId ≠ id := by
    intro t id
    simp only [View.unregister]
    split
    · rename_i ho
      simp [ho]
    · rename_i ho
      exact ⟨fun h => ⟨h, by rintro rfl; exact ho h⟩, And.left⟩
  refine ⟨fun id s hs => h.ids id s (hsub id s hs).2, fun t id => ?_,
    fun id s hs => h.ownedNodup id s (hsub id s hs).2, fun id s hs => h.capacity id s (hsub id s hs).2,
    fun t ht => ?_, fun id s channel hs hc => ?_, fun id s hs => h.channelsNodup id s (hsub id s hs).2⟩
  · rw [howner, h.owned]
    simp only [View.unregister]
    by_cases hid : sessionId = id
    · simp [hid]
    · simp [hid]
  · simp only [View.unregister]
    rw [h.unclaimed t ht]
    rfl
  · obtain ⟨hne, hs⟩ := hsub id s hs
    obtain ⟨t, ht, ho⟩ := h.channels id s channel hs hc
    exact ⟨t, ht, (howner t id).mpr ⟨ho, hne⟩⟩

theorem ok_unregisterSession (h : r.view.Ok max) (sessionId : Text) :
    (unregisterSession r sessionId).view.Ok max ∧
      (unregisterSession r sessionId).view.threw = r.view.threw := by
  rw [view_unregisterSession h]
  exact ⟨h.unregister sessionId, rfl⟩

theorem ok_close (h : r.view.Ok max) :
    (close r).view.Ok max ∧ (close r).view.threw = r.view.threw := by
  unfold close
  split
  · exact ⟨h, rfl⟩
  · have hall : ∀ (ids : List Text) (r : Router), r.view.Ok max →
        (ids.foldl unregisterSession r).view.Ok max ∧
          (ids.foldl unregisterSession r).view.threw = r.view.threw := by
      intro ids
      induction ids with
      | nil => exact fun r h => ⟨h, rfl⟩
      | cons id ids ih =>
        intro r h
        obtain ⟨hok, hthrew⟩ := ok_unregisterSession h id
        obtain ⟨hoks, hthrews⟩ := ih _ hok
        exact ⟨hoks, hthrews.trans hthrew⟩
    exact hall _ _ ⟨h.ids, h.owned, h.ownedNodup, h.capacity, fun _ ht => absurd ht (by simp [Router.view]),
      h.channels, h.channelsNodup⟩

/-! ## Channels and pages -/

/-- A session's new channel, of a target it owns. -/
theorem View.Ok.attach (h : v.Ok max) {s : SessionView} (id targetId : Text)
    (hs : v.session s.sessionId = some s) (howner : v.owner targetId = some s.sessionId)
    (hfresh : v.target id = none) :
    View.Ok max { v.setSession s.sessionId (some { s with channels := s.channels ++ [id] }) with
      target := fun id' => if id = id' then some targetId else v.target id' } := by
  have hnew : ∀ sessionId s', v.session sessionId = some s' → id ∉ s'.channels := by
    intro sessionId s' hs' hc
    obtain ⟨t, ht, -⟩ := h.channels sessionId s' id hs' hc
    rw [hfresh] at ht
    cases ht
  have hcases : ∀ id' s', (if s.sessionId = id' then some { s with channels := s.channels ++ [id] }
      else v.session id') = some s' →
      (s.sessionId = id' ∧ s' = { s with channels := s.channels ++ [id] }) ∨
        v.session id' = some s' := by
    intro id' s' hs'
    split at hs'
    · exact .inl ⟨‹_›, (Option.some.inj hs').symm⟩
    · exact .inr hs'
  refine ⟨fun id' s' hs' => ?_, fun t id' => ?_, fun id' s' hs' => ?_, fun id' s' hs' => ?_,
    h.unclaimed, fun id' s' channel hs' hc => ?_, fun id' s' hs' => ?_⟩
  · rcases hcases id' s' hs' with ⟨rfl, rfl⟩ | hs'
    · rfl
    · exact h.ids id' s' hs'
  · change v.owner t = some id' ↔ _
    rw [h.owned]
    simp only [View.setSession]
    by_cases hid : s.sessionId = id'
    · subst hid
      simp [hs]
    · rw [if_neg hid]
  · rcases hcases id' s' hs' with ⟨rfl, rfl⟩ | hs'
    · exact h.ownedNodup _ s hs
    · exact h.ownedNodup id' s' hs'
  · rcases hcases id' s' hs' with ⟨rfl, rfl⟩ | hs'
    · exact h.capacity _ s hs
    · exact h.capacity id' s' hs'
  · have hold : ∀ s', v.session id' = some s' → channel ∈ s'.channels →
        ∃ t, (if id = channel then some targetId else v.target channel) = some t ∧
          v.owner t = some id' := by
      intro s' hs' hc
      obtain ⟨t, ht, ho⟩ := h.channels id' s' channel hs' hc
      refine ⟨t, ?_, ho⟩
      rw [if_neg (by rintro rfl; exact hnew id' s' hs' hc)]
      exact ht
    rcases hcases id' s' hs' with ⟨rfl, rfl⟩ | hs'
    · rcases List.mem_append.mp hc with hc | hc
      · exact hold s hs hc
      · obtain rfl := List.mem_singleton.mp hc
        exact ⟨targetId, if_pos rfl, howner⟩
    · exact hold s' hs' hc
  · rcases hcases id' s' hs' with ⟨rfl, rfl⟩ | hs'
    · refine List.nodup_append.mpr ⟨h.channelsNodup _ s hs, by simp, ?_⟩
      rintro a ha b hb rfl
      obtain rfl := List.mem_singleton.mp hb
      exact hnew _ s hs ha
    · exact h.channelsNodup id' s' hs'

theorem ok_channelOpens (h : r.view.Ok max) {call : Nat} {targetId id : Text}
    (hfresh : r.attached.get id = none) :
    (channelOpens o r call session targetId id).view.Ok max ∧
      (channelOpens o r call session targetId id).view.threw = r.view.threw := by
  unfold channelOpens
  cases hs : r.state? session with
  | none => exact ⟨h, rfl⟩
  | some state =>
    dsimp only
    split
    swap
    · exact ⟨h, rfl⟩
    rename_i howner
    have hstate := (state?_eq_some hs).1
    have hsession : r.view.session session.sessionId = some state.view := by
      simp only [Router.view, hstate, Option.map_some]
    have hid : session.sessionId = state.view.sessionId := (h.ids _ _ hsession).symm
    rw [view_reply]
    have hview := View.Ok.attach h (s := state.view) id targetId
      (hid ▸ hsession) (hid ▸ howner) (by simp only [Router.view, hfresh, Option.map_none])
    refine ⟨cast (congrArg (View.Ok max) ?_) hview, rfl⟩
    simp only [Router.view, View.setSession, View.mk.injEq, true_and, and_true]
    refine ⟨funext fun id' => ?_, funext fun id' => ?_⟩
    · rw [OrderedMap.get_set, hid]
      split <;> rfl
    · rw [OrderedMap.get_set]
      split <;> rfl

theorem get_dropOldest (keys : List Text) (pages : OrderedMap Text Fields) (id : Text)
    (h : ((dropOldest keys pages).get id).isSome = true) : (pages.get id).isSome = true := by
  induction keys generalizing pages with
  | nil => exact h
  | cons oldest keys ih =>
    unfold dropOldest at h
    split at h
    · exact h
    · have := ih _ h
      rw [OrderedMap.get_delete] at this
      split at this
      · cases this
      · exact this

theorem ok_trackUnclaimedPage (h : r.view.Ok max) (method : Text) {targetId : Text} (parameters : Fields)
    (howner : r.view.owner targetId = none) :
    (trackUnclaimedPage r method targetId parameters).view.Ok max ∧
      (trackUnclaimedPage r method targetId parameters).view.threw = r.view.threw := by
  refine ⟨⟨h.ids, h.owned, h.ownedNodup, h.capacity, fun t ht => ?_, h.channels, h.channelsNodup⟩, rfl⟩
  by_cases hid : targetId = t
  · exact hid ▸ howner
  · have hdelete : ((r.unclaimedPages.delete targetId).get t).isSome = true →
        r.view.owner t = none := by
      intro hs
      rw [OrderedMap.get_delete, if_neg hid] at hs
      exact h.unclaimed t hs
    have hpages : ∀ tracked : Bool, ((if tracked then
        dropOldest ((r.unclaimedPages.delete targetId).set targetId
            (asRecord (parameters.get? (units "targetInfo")))).keys
          ((r.unclaimedPages.delete targetId).set targetId
            (asRecord (parameters.get? (units "targetInfo"))))
        else r.unclaimedPages.delete targetId).get t).isSome = true → r.view.owner t = none := by
      intro tracked ht
      cases tracked with
      | true =>
        have := get_dropOldest _ _ t ht
        rw [OrderedMap.get_set, if_neg hid] at this
        exact hdelete this
      | false => exact hdelete ht
    exact hpages _ ht

/-! ## Events of the browser -/

/-- A page of one session is said to have opened a target that another owns, which
the handler claims for the first. -/
def contested (o : Options) (r : Router) (method : Text) (parameters : Fields) : Bool :=
  !r.closed && method = units "Target.targetCreated" &&
  (eventTargetId parameters).any fun targetId => (openerOwner r parameters).any fun owner =>
    owner.ownedTargetIds.length < o.limits.maxTargetsPerSession &&
    (r.ownerByTargetId.get targetId).any fun other => other ≠ owner.sessionId

theorem ownerOf_spec (h : r.view.Ok max) {targetId : Text} {state : SessionState}
    (hs : r.ownerOf targetId = some state) :
    r.sessions.get state.sessionId = some state ∧ r.ownerByTargetId.get targetId = some state.sessionId := by
  obtain ⟨ownerId, ho, hs⟩ := Option.bind_eq_some_iff.mp hs
  have hid : state.sessionId = ownerId :=
    h.ids ownerId state.view (by simp only [Router.view, hs, Option.map_some])
  rw [hid]
  exact ⟨hs, ho⟩

theorem ownerOf_eq_none (h : r.view.Ok max) {targetId : Text} (hs : r.ownerOf targetId = none) :
    r.view.owner targetId = none := by
  cases ho : r.ownerByTargetId.get targetId with
  | none => exact ho
  | some ownerId =>
    obtain ⟨s, hs', -⟩ := (h.owned targetId ownerId).mp ho
    obtain ⟨state, hstate, -⟩ := Option.map_eq_some_iff.mp hs'
    simp [ownerOf, ho, hstate] at hs

/-- Where there is room, a claim fails only of a target another session owns. -/
theorem claimTarget_isOk {state : SessionState} (targetId : Text)
    (hcapacity : state.ownedTargetIds.length < o.limits.maxTargetsPerSession) :
    (claimTarget o r state targetId).isOk =
      !(r.ownerByTargetId.get targetId).any fun owner => owner ≠ state.sessionId := by
  unfold claimTarget assertTargetCapacity
  rw [if_neg (Nat.not_le_of_lt hcapacity)]
  split
  · rename_i h
    rw [h]
    rfl
  · rename_i h
    rw [Bool.not_eq_true] at h
    rw [h]
    simp only [bind, Except.bind, pure, Except.pure]
    split
    · rfl
    · split <;> rfl

/-- Once the target is claimed, the handler does not throw. -/
theorem ok_announce (h : r.view.Ok max) (method targetId : Text) (parameters : Fields) :
    (announce o r method targetId parameters).view.Ok max ∧
      (announce o r method targetId parameters).view.threw = r.view.threw := by
  obtain ⟨r₁, hheard, hannounce⟩ := announce_cases o r method targetId parameters
  obtain ⟨h', hthrew⟩ : r₁.view.Ok max ∧ r₁.view.threw = r.view.threw := by
    obtain rfl | ⟨owner, -, rfl⟩ | ⟨hs, rfl⟩ := hheard
    · exact ⟨h, rfl⟩
    · rw [view_appendEvent]
      exact ⟨h, rfl⟩
    · exact ok_trackUnclaimedPage h method parameters (ownerOf_eq_none h hs)
  rcases hannounce with hannounce | hannounce <;> rw [hannounce]
  · exact ⟨h', hthrew⟩
  · obtain ⟨h'', hthrew'⟩ := ok_releaseTarget h' targetId
    exact ⟨h'', hthrew'.trans hthrew⟩

theorem openerOwner_spec (h : r.view.Ok max) {parameters : Fields} {owner : SessionState}
    (howner : openerOwner r parameters = some owner) :
    r.sessions.get owner.sessionId = some owner := by
  obtain ⟨targetId, -, howner⟩ := Option.bind_eq_some_iff.mp howner
  exact (ownerOf_spec h howner).1

theorem ok_claimOpened (h : r.view.Ok o.limits.maxTargetsPerSession) {method targetId : Text}
    {parameters : Fields} (hclaim : claimOpened o r method targetId parameters = .ok r') :
    r'.view.Ok o.limits.maxTargetsPerSession ∧ r'.view.threw = r.view.threw := by
  unfold claimOpened at hclaim
  split at hclaim
  · rename_i owner howner
    split at howner
    swap
    · cases howner
    have hs := openerOwner_spec h howner
    split at hclaim
    · obtain ⟨hother, hcapacity, hview⟩ := claimTarget_spec hclaim
      rw [hview]
      exact ⟨h.claim (by simp only [Router.view, hs, Option.map_some]) hother hcapacity, rfl⟩
    · obtain rfl := Except.ok.inj hclaim
      exact ⟨h, rfl⟩
  · obtain rfl := Except.ok.inj hclaim
    exact ⟨h, rfl⟩

theorem isOk_handleBrowserEvent_claimOpened {method targetId : Text} {parameters : Fields} (hclosed : r.closed = false)
    (hmethod : (units "Target.").isPrefixOf method = true) (ht : eventTargetId parameters = some targetId) :
    (handleBrowserEvent o r method parameters).isOk =
      (claimOpened o r method targetId parameters).isOk := by
  unfold handleBrowserEvent
  rw [if_neg (by simp [hclosed, hmethod]), ht]
  dsimp only
  cases claimOpened o r method targetId parameters <;> rfl

theorem handleBrowserEvent_isOk (method : Text) (parameters : Fields) :
    (handleBrowserEvent o r method parameters).isOk = !contested o r method parameters := by
  unfold contested
  cases hclosed : r.closed with
  | true => simp [handleBrowserEvent, hclosed, Except.isOk, Except.toBool]
  | false =>
    by_cases hmethod : (units "Target.").isPrefixOf method = false
    · have hne : method ≠ units "Target.targetCreated" := by
        rintro rfl
        exact absurd hmethod (by decide)
      simp [handleBrowserEvent, hmethod, hne, Except.isOk, Except.toBool]
    · rw [Bool.not_eq_false] at hmethod
      cases ht : eventTargetId parameters with
      | none => simp [handleBrowserEvent, hmethod, ht, Except.isOk, Except.toBool]
      | some targetId =>
        rw [isOk_handleBrowserEvent_claimOpened hclosed hmethod ht]
        unfold claimOpened
        by_cases hcreated : method = units "Target.targetCreated"
        · rw [if_pos hcreated]
          cases openerOwner r parameters with
          | none => simp [hcreated, Except.isOk, Except.toBool]
          | some owner =>
            dsimp only
            split
            · rename_i hcapacity
              rw [claimTarget_isOk _ hcapacity]
              simp [hcreated, hcapacity]
            · rename_i hcapacity
              simp [hcreated, hcapacity, Except.isOk, Except.toBool]
        · rw [if_neg hcreated]
          simp [hcreated, Except.isOk, Except.toBool]

theorem ok_handleBrowserEvent (h : r.view.Ok o.limits.maxTargetsPerSession) {method : Text}
    {parameters : Fields} (hevent : handleBrowserEvent o r method parameters = .ok r') :
    r'.view.Ok o.limits.maxTargetsPerSession ∧ r'.view.threw = r.view.threw := by
  unfold handleBrowserEvent at hevent
  split at hevent
  · obtain rfl := Except.ok.inj hevent
    exact ⟨h, rfl⟩
  · split at hevent
    · obtain rfl := Except.ok.inj hevent
      exact ⟨h, rfl⟩
    · split at hevent
      · rename_i r₁ hclaim
        obtain rfl := Except.ok.inj hevent
        obtain ⟨h₁, hthrew⟩ := ok_claimOpened h hclaim
        obtain ⟨h₂, hthrew'⟩ := ok_announce (o := o) h₁ method _ parameters
        exact ⟨h₂, hthrew'.trans hthrew⟩
      · cases hevent

/-! ## Commands -/

theorem activateTarget_ok {call : Nat} {targetId : Text}
    (h : activateTarget r call session targetId = .ok r') : r' = suspend r call .activate := by
  obtain ⟨-, -, h⟩ := bind_eq_ok.mp h
  exact (Except.ok.inj h).symm

/-- What a command to the browser comes to, if it is let through. -/
theorem sendTargetCommand_cases {call : Nat} {state : SessionState} {command : CdpCommand}
    (h : sendTargetCommand o r call state command = .ok r') :
    (∃ targetId suspended, r' = sendBackend r call command.method targetId suspended) ∨
    (∃ suspended, r' = suspend r call suspended) ∨
    (∃ id, r' = reply o (endChannel r state.sessionId id) call (.object []) none) ∨
    ∃ discoverTargets, r' = reply o
      { r with sessions := r.sessions.set state.sessionId { state with discoverTargets } } call (.object []) none := by
  have hsent : ∀ {targetId suspended},
      (.ok (sendBackend r call command.method targetId suspended) : Except RouterError Router) = .ok r' →
      ∃ targetId suspended, r' = sendBackend r call command.method targetId suspended :=
    fun h => ⟨_, _, (Except.ok.inj h).symm⟩
  unfold sendTargetCommand at h
  dsimp only at h
  rcases ite_eq_iff.mp h with ⟨-, h⟩ | ⟨-, h⟩
  · exact .inl (hsent h)
  rcases ite_eq_iff.mp h with ⟨-, h⟩ | ⟨-, h⟩
  · exact .inl (hsent h)
  rcases ite_eq_iff.mp h with ⟨-, h⟩ | ⟨-, h⟩
  · obtain ⟨targetId, -, h⟩ := bind_eq_ok.mp h
    obtain ⟨-, -, h⟩ := bind_eq_ok.mp h
    exact .inl (hsent h)
  rcases ite_eq_iff.mp h with ⟨-, h⟩ | ⟨-, h⟩
  · obtain ⟨-, -, h⟩ := bind_eq_ok.mp h
    obtain ⟨-, -, h⟩ := bind_eq_ok.mp h
    exact .inl (hsent h)
  rcases ite_eq_iff.mp h with ⟨-, h⟩ | ⟨-, h⟩
  · obtain ⟨targetId, -, h⟩ := bind_eq_ok.mp h
    obtain ⟨-, -, h⟩ := bind_eq_ok.mp h
    exact .inr (.inl ⟨_, (Except.ok.inj h).symm⟩)
  rcases ite_eq_iff.mp h with ⟨-, h⟩ | ⟨-, h⟩
  · obtain ⟨virtualSessionId, -, h⟩ := bind_eq_ok.mp h
    obtain ⟨-, -, h⟩ := bind_eq_ok.mp h
    exact .inr (.inr (.inl ⟨virtualSessionId, (Except.ok.inj h).symm⟩))
  rcases ite_eq_iff.mp h with ⟨-, h⟩ | ⟨-, h⟩
  · split at h
    · exact .inr (.inr (.inr ⟨_, (Except.ok.inj h).symm⟩))
    · cases h
  rcases ite_eq_iff.mp h with ⟨-, h⟩ | ⟨-, h⟩
  · obtain ⟨targetId, -, h⟩ := bind_eq_ok.mp h
    exact .inr (.inl ⟨_, activateTarget_ok h⟩)
  rcases ite_eq_iff.mp h with ⟨-, h⟩ | ⟨-, h⟩
  · obtain ⟨targetId, -, h⟩ := bind_eq_ok.mp h
    obtain ⟨-, -, h⟩ := bind_eq_ok.mp h
    exact .inl (hsent h)
  · cases h

theorem view_sendAdmitted {call : Nat} {command : CdpCommand}
    (h : sendAdmitted o r call session command = .ok r') : r'.view = r.view := by
  unfold sendAdmitted at h
  obtain ⟨attached, -, h⟩ := bind_eq_ok.mp h
  dsimp only at h
  rcases ite_eq_iff.mp h with ⟨-, h⟩ | ⟨-, h⟩
  · rw [activateTarget_ok h]
    rfl
  have hpage : ∀ r₁ : Router, r₁ = (if command.method = units "Page.enable" then
      setAttached r (command.sessionId.getD []) fun a => { a with pageEnabled := true }
      else if command.method = units "Page.disable" then
        setAttached r (command.sessionId.getD []) fun a => { a with pageEnabled := false }
      else r) → r₁.view = r.view := by
    rintro r₁ rfl
    split
    · exact view_setAttached fun _ => rfl
    · split
      · exact view_setAttached fun _ => rfl
      · rfl
  have hruntime : ∀ (r₁ : Router) (enabled : Bool), r₁.view = r.view →
      (setAttached r₁ (command.sessionId.getD []) fun a =>
        { a with runtimeEnabled := enabled }).view = r.view := by
    intro r₁ enabled h₁
    rw [← h₁]
    exact view_setAttached fun _ => rfl
  rcases ite_eq_iff.mp h with ⟨-, h⟩ | ⟨-, h⟩
  · rcases ite_eq_iff.mp h with ⟨-, h⟩ | ⟨-, h⟩
    · obtain rfl := Except.ok.inj h
      rw [view_reply]
      exact hpage _ rfl
    · obtain rfl := Except.ok.inj h
      rw [view_reply, view_foldl fun r a => view_appendEvent ..]
      exact hruntime _ true (hpage _ rfl)
  rcases ite_eq_iff.mp h with ⟨-, h⟩ | ⟨-, h⟩
  · obtain rfl := Except.ok.inj h
    rw [view_reply]
    exact hruntime _ false (hpage _ rfl)
  rcases ite_eq_iff.mp h with ⟨-, h⟩ | ⟨-, h⟩
  · obtain ⟨attached', -, h⟩ := bind_eq_ok.mp h
    obtain rfl := Except.ok.inj h
    rw [view_sendPage]
    exact hpage _ rfl
  · obtain rfl := Except.ok.inj h
    rw [view_sendPage]
    exact hpage _ rfl

theorem ok_endChannel (h : r.view.Ok max) (sessionId id : Text) :
    (endChannel r sessionId id).view.Ok max ∧ (endChannel r sessionId id).view.threw = r.view.threw := by
  have hview := view_endChannels sessionId [id] r
  rw [List.foldl_cons, List.foldl_nil] at hview
  rw [hview]
  exact ⟨h.endChannels sessionId [id], rfl⟩

theorem ok_sendTargetCommand (h : r.view.Ok max) {call : Nat} {state : SessionState}
    (hs : r.sessions.get state.sessionId = some state) {command : CdpCommand}
    (hsend : sendTargetCommand o r call state command = .ok r') :
    r'.view.Ok max ∧ r'.view.threw = r.view.threw := by
  obtain ⟨targetId, suspended, rfl⟩ | ⟨suspended, rfl⟩ | ⟨id, rfl⟩ | ⟨discoverTargets, rfl⟩ :=
    sendTargetCommand_cases hsend
  · exact ⟨h, rfl⟩
  · exact ⟨h, rfl⟩
  -- Only a detach changes the view.
  · rw [view_reply]
    exact ok_endChannel h state.sessionId id
  · have hview := view_setSession hs (rfl : SessionState.view { state with discoverTargets } = state.view)
    rw [view_reply, hview]
    exact ⟨h, rfl⟩

theorem get_of_requireSession {sessionId : Text} {state : SessionState}
    (h : requireSession r sessionId = .ok state) : r.sessions.get sessionId = some state := by
  unfold requireSession at h
  split at h
  · rename_i hs
    exact hs.trans (congrArg some (Except.ok.inj h))
  · cases h

theorem ok_send (h : r.view.Ok max) {call : Nat} {sessionId : Text} {command : CdpCommand}
    (hsend : send o r call sessionId command = .ok r') :
    r'.view.Ok max ∧ r'.view.threw = r.view.threw := by
  unfold send at hsend
  obtain ⟨-, -, hsend⟩ := bind_eq_ok.mp hsend
  obtain ⟨state, hstate, hsend⟩ := bind_eq_ok.mp hsend
  obtain ⟨-, -, hsend⟩ := bind_eq_ok.mp hsend
  have hs := get_of_requireSession hstate
  have hid : state.sessionId = sessionId :=
    h.ids sessionId state.view (by simp only [Router.view, hs, Option.map_some])
  split at hsend
  · exact ok_sendTargetCommand h (hid.symm ▸ hs) hsend
  split at hsend
  · split at hsend
    · obtain rfl := Except.ok.inj hsend
      exact ⟨h, rfl⟩
    · rw [view_sendAdmitted hsend]
      exact ⟨h, rfl⟩
  · split at hsend
    · obtain rfl := Except.ok.inj hsend
      exact ⟨h, rfl⟩
    · cases hsend

/-- A command whose check fails is only answered. -/
theorem ok_orFail (h : r.view.Ok max) {call : Nat} {check : Except RouterError Router}
    (hcheck : ∀ r', check = .ok r' → r'.view.Ok max ∧ r'.view.threw = r.view.threw) :
    (orFail r call check).view.Ok max ∧ (orFail r call check).view.threw = r.view.threw := by
  cases check with
  | ok r' => exact hcheck r' rfl
  | error error => exact ⟨h, rfl⟩

/-! ## What commands await -/

theorem ok_targetCreated (h : r.view.Ok o.limits.maxTargetsPerSession) {call : Nat} {response : Json} :
    (targetCreated o r call session response).view.Ok o.limits.maxTargetsPerSession ∧
      (targetCreated o r call session response).view.threw = r.view.threw := by
  unfold targetCreated
  split
  · exact ⟨h, rfl⟩
  split
  · exact ⟨h, rfl⟩
  · rename_i targetId _ _ state hstate
    refine ok_orFail h fun r' hcheck => ?_
    obtain ⟨r₁, hclaim, hr'⟩ := bind_eq_ok.mp hcheck
    obtain rfl := Except.ok.inj hr'
    obtain ⟨hother, hcapacity, hview⟩ := claimTarget_spec hclaim
    rw [view_reply, hview]
    have hs := (state?_eq_some hstate).1
    have hsession : r.view.session session.sessionId = some state.view := by
      simp only [Router.view, hs, Option.map_some]
    have hid : state.sessionId = session.sessionId := h.ids _ _ hsession
    exact ⟨h.claim hsession (hid ▸ hother) hcapacity, rfl⟩

theorem ok_backendAnswers (h : r.view.Ok o.limits.maxTargetsPerSession) {call : Nat}
    {response : Option Json} (hstep : backendAnswers o r call response = some r') :
    r'.view.Ok o.limits.maxTargetsPerSession ∧ r'.view.threw = r.view.threw := by
  unfold backendAnswers at hstep
  split at hstep
  · obtain rfl := Option.some.inj hstep
    exact ⟨h, rfl⟩
  · obtain rfl := Option.some.inj hstep
    exact ⟨h, rfl⟩
  · obtain rfl := Option.some.inj hstep
    exact ⟨h, rfl⟩
  · obtain rfl := Option.some.inj hstep
    exact ⟨h, rfl⟩
  · obtain rfl := Option.some.inj hstep
    exact ⟨h, rfl⟩
  · obtain rfl := Option.some.inj hstep
    rw [view_reply]
    exact ⟨h, rfl⟩
  · obtain rfl := Option.some.inj hstep
    rw [view_reply]
    exact ⟨h, rfl⟩
  · obtain rfl := Option.some.inj hstep
    exact ok_targetCreated h
  · rename_i targetId _ _
    obtain rfl := Option.some.inj hstep
    rw [view_reply]
    exact ok_releaseTarget h targetId
  · cases hstep

theorem ok_attachSettles (h : r.view.Ok max) {call : Nat} {channel : Option Text}
    (hstep : attachSettles o r call channel = some r') :
    r'.view.Ok max ∧ r'.view.threw = r.view.threw := by
  unfold attachSettles at hstep
  split at hstep
  · split at hstep
    · cases hstep
    · rename_i hfresh
      obtain rfl := Option.some.inj hstep
      exact ok_channelOpens h (by simpa using hfresh)
  · obtain rfl := Option.some.inj hstep
    exact ⟨h, rfl⟩
  · cases hstep

theorem view_surfaceResolves {call : Nat} {found : Option Bool}
    (hstep : surfaceResolves o r call found = some r') : r'.view = r.view := by
  unfold surfaceResolves at hstep
  split at hstep
  · obtain rfl := Option.some.inj hstep
    exact view_reply ..
  · obtain rfl := Option.some.inj hstep
    exact view_fail ..
  · obtain rfl := Option.some.inj hstep
    exact view_fail ..
  · cases hstep

theorem ok_inventorySettles (h : r.view.Ok max) {id : Text} {enabled : Bool}
    (hstep : inventorySettles r id enabled = some r') :
    r'.view.Ok max ∧ r'.view.threw = r.view.threw := by
  have hset : ∀ inventoried : Inventoried,
      (setAttached r id fun a => { a with inventoried }).view = r.view :=
    fun _ => view_setAttached fun _ => rfl
  unfold inventorySettles at hstep
  split at hstep
  · cases hstep
  split at hstep
  · cases hstep
  split at hstep
  · obtain rfl := Option.some.inj hstep
    rw [hset]
    exact ⟨h, rfl⟩
  dsimp only at hstep
  split at hstep
  · split at hstep
    · obtain rfl := Option.some.inj hstep
      rename_i state _ _
      obtain ⟨hok, hthrew⟩ := ok_endChannel ((hset .failed).symm ▸ h) state.sessionId id
      exact ⟨hok, hthrew.trans (congrArg View.threw (hset .failed))⟩
    · obtain rfl := Option.some.inj hstep
      rw [hset]
      exact ⟨h, rfl⟩
  · obtain rfl := Option.some.inj hstep
    rw [hset]
    exact ⟨h, rfl⟩

theorem ok_resumes (h : r.view.Ok max) {call : Nat} (hstep : resumes o r call = some r') :
    r'.view.Ok max ∧ r'.view.threw = r.view.threw := by
  unfold resumes at hstep
  split at hstep
  swap
  · cases hstep
  split at hstep
  · cases hstep
  split at hstep
  · obtain rfl := Option.some.inj hstep
    refine ok_orFail h fun r₁ hsend => ?_
    rw [view_sendAdmitted hsend]
    exact ⟨h, rfl⟩
  · obtain rfl := Option.some.inj hstep
    exact ⟨h, rfl⟩
  · split at hstep
    · obtain rfl := Option.some.inj hstep
      exact ⟨h, rfl⟩
    · cases hstep

theorem view_channelAnswers {call : Nat} {result : Option Json}
    (hstep : channelAnswers o r call result = some r') : r'.view = r.view := by
  unfold channelAnswers at hstep
  split at hstep
  swap
  · cases hstep
  split at hstep
  · cases hstep
  · split at hstep
    · obtain rfl := Option.some.inj hstep
      exact view_fail ..
    · obtain rfl := Option.some.inj hstep
      exact view_reply ..
  · obtain rfl := Option.some.inj hstep
    exact view_fail ..

/-! ## Page events -/

theorem view_handlePageEvent (id : Text) (attached : AttachedChannel) (method : Text) (parameters : Fields) :
    (handlePageEvent o r id attached method parameters).view = r.view := by
  have hset : ∀ contexts : ExecutionContextInventory,
      (setAttached r id fun a => { a with contexts }).view = r.view :=
    fun _ => view_setAttached fun _ => rfl
  unfold handlePageEvent
  split
  · rfl
  split
  · rfl
  dsimp only
  split
  · exact hset _
  split
  · exact hset _
  split
  · exact hset _
  split
  · exact hset _
  · rw [view_appendEvent]
    exact hset _

theorem view_publishDialog (targetId method : Text) (parameters : Fields) :
    (publishDialog o r session targetId method parameters).view = r.view := by
  unfold publishDialog
  split
  · rfl
  refine view_foldl (fun r id => ?_) _ _
  split
  · split
    · exact view_appendEvent ..
    · rfl
  · rfl

theorem view_useDialogEvents (sessionId : Text) :
    Router.view { r with sessions := r.sessions.modify sessionId fun state =>
      { state with ledgerDialogEvents := true } } = r.view := by
  have hsession : ∀ id, ((r.sessions.modify sessionId fun state =>
      { state with ledgerDialogEvents := true }).get id).map SessionState.view =
      (r.sessions.get id).map SessionState.view := by
    intro id
    rw [OrderedMap.get_modify]
    split
    · rename_i h
      rw [← h, Option.map_map]
      rfl
    · rfl
  simp only [Router.view, hsession]

/-! ## Runs -/

theorem ok_claim (h : r.view.Ok o.limits.maxTargetsPerSession) {sessionId targetId : Text}
    (hclaim : claim o r sessionId targetId = .ok r') :
    r'.view.Ok o.limits.maxTargetsPerSession ∧ r'.view.threw = r.view.threw := by
  unfold claim at hclaim
  obtain ⟨-, -, hclaim⟩ := bind_eq_ok.mp hclaim
  obtain ⟨-, -, hclaim⟩ := bind_eq_ok.mp hclaim
  obtain ⟨state, hstate, hclaim⟩ := bind_eq_ok.mp hclaim
  have hs := get_of_requireSession hstate
  have hsession : r.view.session sessionId = some state.view := by
    simp only [Router.view, hs, Option.map_some]
  have hid : state.sessionId = sessionId := h.ids _ _ hsession
  split at hclaim
  · obtain rfl := Except.ok.inj hclaim
    exact ⟨h, rfl⟩
  · obtain ⟨hother, hcapacity, hview⟩ := claimTarget_spec hclaim
    rw [hview]
    exact ⟨h.claim hsession (hid ▸ hother) hcapacity, rfl⟩

theorem ok_orSame (h : r.view.Ok max) {result : Except RouterError Router}
    (hresult : ∀ r', result = .ok r' → r'.view.Ok max ∧ r'.view.threw = r.view.threw) :
    (orSame r result).view.Ok max ∧ (orSame r result).view.threw = r.view.threw := by
  cases result with
  | ok r' => exact hresult r' rfl
  | error error => exact ⟨h, rfl⟩

/-- The step is no event of the browser that contests a target. -/
def Uncontested (o : Options) (r : Router) : Action → Prop
  | .browserEvent method parameters => contested o r method parameters = false
  | _ => True

instance : DecidablePred (Uncontested o r) := fun a => by
  cases a <;> unfold Uncontested <;> infer_instance

/-- A step keeps ownership sound, and the handler throws of a contested event only. -/
theorem ok_step (h : r.view.Ok o.limits.maxTargetsPerSession) {a : Action}
    (hstep : (machine o).step r a = some r') :
    r'.view.Ok o.limits.maxTargetsPerSession ∧
      (r'.view.threw = false ↔ r.view.threw = false ∧ Uncontested o r a) := by
  -- Of any other action, that ownership stays sound and that the handler did not throw.
  have hkept : ∀ r' : Router, r'.view.Ok o.limits.maxTargetsPerSession ∧ r'.view.threw = r.view.threw →
      r'.view.Ok o.limits.maxTargetsPerSession ∧
        (r'.view.threw = false ↔ r.view.threw = false ∧ True) := by
    rintro r' ⟨hok, hthrew⟩
    exact ⟨hok, by rw [hthrew, and_true]⟩
  have hview : r'.view = r.view → r'.view.Ok o.limits.maxTargetsPerSession ∧
      r'.view.threw = r.view.threw := by
    intro hview
    rw [hview]
    exact ⟨h, rfl⟩
  cases a with
  | registerSession sessionId rootTargetId filesRoot =>
    obtain rfl := Option.some.inj hstep
    refine hkept _ (ok_orSame h fun r₁ hr₁ => ?_)
    obtain ⟨hsession, howner, hview⟩ := registerSession_spec hr₁
    rw [hview]
    exact ⟨h.register o.limits.maxTargetsPerSession_pos hsession howner, rfl⟩
  | unregisterSession sessionId =>
    obtain rfl := Option.some.inj hstep
    exact hkept _ (ok_unregisterSession h sessionId)
  | close =>
    obtain rfl := Option.some.inj hstep
    exact hkept _ (ok_close h)
  | claimTarget sessionId targetId =>
    obtain rfl := Option.some.inj hstep
    exact hkept _ (ok_orSame h fun r₁ => ok_claim h)
  | useDialogEvents sessionId =>
    obtain rfl := Option.some.inj hstep
    exact hkept _ (hview (view_useDialogEvents sessionId))
  | dialogEvent session targetId opening parameters =>
    obtain rfl := Option.some.inj hstep
    exact hkept _ (hview (view_publishDialog ..))
  | browserEvent method parameters =>
    have hisOk := handleBrowserEvent_isOk (o := o) (r := r) method parameters
    simp only [Uncontested]
    rcases step_browserEvent hstep with hevent | ⟨error, hevent, rfl⟩
    · have hcontested : contested o r method parameters = false := by
        simpa [hevent, Except.isOk, Except.toBool] using hisOk
      obtain ⟨hok, hthrew⟩ := ok_handleBrowserEvent h hevent
      exact ⟨hok, by rw [hthrew, hcontested]; simp⟩
    · have hcontested : contested o r method parameters = true := by
        simpa [hevent, Except.isOk, Except.toBool] using hisOk
      refine ⟨⟨h.ids, h.owned, h.ownedNodup, h.capacity, h.unclaimed, h.channels, h.channelsNodup⟩, ?_⟩
      simp [Router.view, hcontested]
  | pageEvent id method parameters =>
    obtain ⟨attached, -, rfl⟩ := step_pageEvent hstep
    exact hkept _ (hview (view_handlePageEvent ..))
  | send call sessionId command =>
    obtain ⟨-, rfl⟩ := step_send hstep
    exact hkept _ (ok_orFail h fun r₁ => ok_send h)
  | backendAnswers call response => exact hkept _ (ok_backendAnswers h hstep)
  | attachSettles call channel => exact hkept _ (ok_attachSettles h hstep)
  | surfaceResolves call found => exact hkept _ (hview (view_surfaceResolves hstep))
  | inventorySettles id enabled => exact hkept _ (ok_inventorySettles h hstep)
  | resumes call => exact hkept _ (ok_resumes h hstep)
  | channelAnswers call result => exact hkept _ (hview (view_channelAnswers hstep))

theorem ok_initial (max : Nat) : initial.view.Ok max where
  ids _ _ hs := nomatch hs
  owned _ _ := ⟨(nomatch ·), fun ⟨_, hs, _⟩ => nomatch hs⟩
  ownedNodup _ _ hs := nomatch hs
  capacity _ _ hs := nomatch hs
  unclaimed _ ht := nomatch ht
  channels _ _ _ hs := nomatch hs
  channelsNodup _ _ hs := nomatch hs

/-- In every run a target has the owner that counts it among its own, no session owns
more than it may, no unclaimed page has an owner, and a session's channels are of its
own targets; and the handler of browser events has thrown exactly if it was told that
a session's page opened a target another session owned. -/
theorem target_ownership (o : Options) (as : List Action) (r : Router)
    (hrun : (machine o).run initial as = some r) :
    (∀ targetId sessionId, r.ownerByTargetId.get targetId = some sessionId ↔
      ∃ state, r.sessions.get sessionId = some state ∧ targetId ∈ state.ownedTargetIds) ∧
    (∀ sessionId state, r.sessions.get sessionId = some state →
      state.ownedTargetIds.Nodup ∧ state.ownedTargetIds.length ≤ o.limits.maxTargetsPerSession) ∧
    (∀ targetId, (r.unclaimedPages.get targetId).isSome → r.ownerByTargetId.get targetId = none) ∧
    (∀ sessionId state id, r.sessions.get sessionId = some state → id ∈ state.channels →
      ∃ attached, r.attached.get id = some attached ∧
        r.ownerByTargetId.get attached.physicalTargetId = some sessionId) ∧
    (r.handlerThrew = false ↔ (machine o).Meets (Uncontested o) initial as) := by
  have hinv := (machine o).run_induction (G := fun _ _ => True)
    (P := fun as r => r.view.Ok o.limits.maxTargetsPerSession ∧
      (r.view.threw = false ↔ (machine o).Meets (Uncontested o) initial as))
    ⟨ok_initial _, by simp [Router.view, initial]⟩
    (fun as r a r' hrun ⟨hok, hthrew⟩ _ hstep => by
      obtain ⟨hok', hthrew'⟩ := ok_step hok hstep
      exact ⟨hok', by rw [hthrew', hthrew, (machine o).meets_snoc_iff hrun]⟩)
    ((machine o).meets_true initial as) hrun
  obtain ⟨hok, hthrew⟩ := hinv
  have hstate : ∀ (sessionId : Text) (state : SessionState), r.sessions.get sessionId = some state →
      r.view.session sessionId = some state.view := by
    intro sessionId state hs
    simp only [Router.view, hs, Option.map_some]
  refine ⟨fun targetId sessionId => ?_, fun sessionId state hs => ?_, hok.unclaimed,
    fun sessionId state id hs hc => ?_, hthrew⟩
  · refine (hok.owned targetId sessionId).trans ⟨?_, ?_⟩
    · rintro ⟨s, hs, ht⟩
      obtain ⟨state, hget, rfl⟩ := Option.map_eq_some_iff.mp hs
      exact ⟨state, hget, ht⟩
    · rintro ⟨state, hs, ht⟩
      exact ⟨state.view, hstate _ _ hs, ht⟩
  · exact ⟨hok.ownedNodup _ _ (hstate _ _ hs), hok.capacity _ _ (hstate _ _ hs)⟩
  · obtain ⟨targetId, ht, ho⟩ := hok.channels _ _ id (hstate _ _ hs) hc
    obtain ⟨attached, hget, rfl⟩ := Option.map_eq_some_iff.mp ht
    exact ⟨attached, hget, ho⟩

/-- Small limits, where nothing a page says is refused and everything fits. -/
def roomyOptions : Options where
  limits := {
    maxCommandBytes := 65536, maxEventBytes := 65536, maxResultBytes := 65536
    maxSessions := 8, maxTargetsPerSession := 2, maxTargetsPerSession_pos := by decide }
  commandBytes _ := 1024
  eventBytes _ := 1024
  resultBytes _ := 1024
  agentPageCommandRefusal _ _ := none
  isAgentPageEvent _ := true
  parseUrl _ := none
  isNormalizedAbsolute file := (units "/").isPrefixOf file

/-- A page's creation, as the browser announces it. -/
def announcement (targetId openerId : Text) : Action :=
  .browserEvent (units "Target.targetCreated") [(units "targetInfo", .object
    [(units "targetId", .string targetId), (units "type", .string (units "page")),
      (units "openerId", .string openerId)])]

/-- A page of session `b` opens `popup`, which is so its own; then `b` ends. -/
def popupRun : List Action :=
  [.registerSession (units "b") (units "root") (units "/files"),
    announcement (units "popup") (units "root"),
    .unregisterSession (units "b")]

theorem target_ownership_run : ∃ r, (machine roomyOptions).run initial popupRun = some r ∧
    ((∀ targetId sessionId, r.ownerByTargetId.get targetId = some sessionId ↔
      ∃ state, r.sessions.get sessionId = some state ∧ targetId ∈ state.ownedTargetIds) ∧
    (∀ sessionId state, r.sessions.get sessionId = some state →
      state.ownedTargetIds.Nodup ∧
        state.ownedTargetIds.length ≤ roomyOptions.limits.maxTargetsPerSession) ∧
    (∀ targetId, (r.unclaimedPages.get targetId).isSome → r.ownerByTargetId.get targetId = none) ∧
    (∀ sessionId state id, r.sessions.get sessionId = some state → id ∈ state.channels →
      ∃ attached, r.attached.get id = some attached ∧
        r.ownerByTargetId.get attached.physicalTargetId = some sessionId) ∧
    (r.handlerThrew = false ↔ (machine roomyOptions).Meets (Uncontested roomyOptions) initial
      popupRun)) :=
  (machine roomyOptions).exists_run (by decide +kernel)
    fun r hrun => target_ownership roomyOptions popupRun r hrun

/-- Session `b` has a page that a page of session `c` is said to have opened. -/
def contestedRun : List Action :=
  [.registerSession (units "b") (units "page") (units "/files"),
    .registerSession (units "c") (units "opener") (units "/files"),
    announcement (units "page") (units "opener")]

theorem contested_throws : ∃ r, (machine roomyOptions).run initial contestedRun = some r ∧
    r.handlerThrew = true :=
  (machine roomyOptions).exists_run_of_any (by decide +kernel)

end Opensteer.SessionCdpRouter
