import Opensteer.SessionCdpRouter.Ownership

/-!
# Tabs that agents open

When the browser has opened a tab for a session's `Target.createTarget`, the tab is
the session's, or it is told to close: so the router leaves no tab that no one owns.
It does not where the session lost the room it had when it asked, or where another
session came to own the tab: the command then fails, and the tab stays open
(`created_target_disposed`).
-/

namespace Opensteer.SessionCdpRouter

open Router

/-- The target that the browser's answer to `Target.createTarget` names. -/
def createdTarget (response : Json) : Option Text :=
  match (asRecord (some response)).get? (units "targetId") with
  | some (.string targetId) => some targetId
  | _ => none

/-- The session owns the target, or it is gone, or it was told to close. -/
def Disposed (r : Router) (session : SessionRef) (targetId : Text) : Prop :=
  r.ownerByTargetId.get targetId = some session.sessionId ∨ targetId ∈ r.gone ∨
    (units "Target.closeTarget", some targetId) ∈ r.backendCalls

/-- The target is disposed of already; or it has an id as targets do, and its session,
if it has not ended, has room for it and no other session owns it. -/
def Claimable (o : Options) (r : Router) (session : SessionRef) (targetId : Text) : Prop :=
  Disposed r session targetId ∨
    (1 ≤ targetId.length ∧ targetId.length ≤ 512 ∧ ∀ state ∈ r.state? session,
      (∀ owner ∈ r.ownerByTargetId.get targetId, owner = session.sessionId) ∧
      state.ownedTargetIds.length < o.limits.maxTargetsPerSession)

variable {o : Options} {r r' : Router} {session : SessionRef} {max : Nat}

/-! ## What stays -/

/-- What the router has, by what it told the browser and what the browser told it. -/
def Router.record (r : Router) : OrderedMap Text Text × List Text × List (Text × Option Text) :=
  (r.ownerByTargetId, r.gone, r.backendCalls)

theorem Disposed.congr (h : r'.record = r.record) {targetId : Text} :
    Disposed r' session targetId ↔ Disposed r session targetId := by
  obtain ⟨howner, hgone, hcalls⟩ : r'.ownerByTargetId = r.ownerByTargetId ∧ r'.gone = r.gone ∧
      r'.backendCalls = r.backendCalls := by
    simpa [Router.record] using h
  simp only [Disposed, howner, hgone, hcalls]

@[simp] theorem record_appendEvent (method : Text) (parameters : Fields) (id : Option Text)
    (contexts : Option ExecutionContextInventory) :
    (appendEvent o r session method parameters id contexts).record = r.record := by
  unfold appendEvent
  split <;> rfl

@[simp] theorem record_reply (call : Nat) (result : Json) (contexts : Option ExecutionContextInventory) :
    (reply o r call result contexts).record = r.record := by
  unfold reply
  split <;> rfl

theorem record_foldl {α : Type} {f : Router → α → Router} (hf : ∀ r a, (f r a).record = r.record)
    (as : List α) (r : Router) : (as.foldl f r).record = r.record := by
  induction as generalizing r with
  | nil => rfl
  | cons a as ih => rw [List.foldl_cons, ih, hf]

theorem record_endChannels (sessionId : Text) (ids : List Text) (r : Router) :
    (ids.foldl (fun r id => endChannel r sessionId id) r).record = r.record := by
  refine record_foldl (fun r id => ?_) ids r
  rfl

theorem record_sendAdmitted {call : Nat} {command : CdpCommand}
    (h : sendAdmitted o r call session command = .ok r') : r'.record = r.record := by
  unfold sendAdmitted at h
  obtain ⟨attached, -, h⟩ := bind_eq_ok.mp h
  dsimp only at h
  rcases ite_eq_iff.mp h with ⟨-, h⟩ | ⟨-, h⟩
  · rw [activateTarget_ok h]
    rfl
  have hpage : Router.record (if command.method = units "Page.enable" then
      setAttached r (command.sessionId.getD []) fun a => { a with pageEnabled := true }
      else if command.method = units "Page.disable" then
        setAttached r (command.sessionId.getD []) fun a => { a with pageEnabled := false }
      else r) = r.record := by
    split
    · rfl
    · split <;> rfl
  rcases ite_eq_iff.mp h with ⟨-, h⟩ | ⟨-, h⟩
  · rcases ite_eq_iff.mp h with ⟨-, h⟩ | ⟨-, h⟩
    · obtain rfl := Except.ok.inj h
      rw [record_reply]
      exact hpage
    · obtain rfl := Except.ok.inj h
      rw [record_reply, record_foldl fun r a => record_appendEvent ..]
      exact hpage
  rcases ite_eq_iff.mp h with ⟨-, h⟩ | ⟨-, h⟩
  · obtain rfl := Except.ok.inj h
    rw [record_reply]
    exact hpage
  rcases ite_eq_iff.mp h with ⟨-, h⟩ | ⟨-, h⟩
  · obtain ⟨attached', -, h⟩ := bind_eq_ok.mp h
    obtain rfl := Except.ok.inj h
    exact hpage
  · obtain rfl := Except.ok.inj h
    exact hpage

/-! ## What is disposed of stays so -/

theorem Disposed.mono {targetId : Text} (h : Disposed r session targetId)
    (howner : r.ownerByTargetId.get targetId = some session.sessionId →
      r'.ownerByTargetId.get targetId = some session.sessionId ∨ targetId ∈ r'.gone)
    (hgone : r.gone ⊆ r'.gone) (hcalls : r.backendCalls ⊆ r'.backendCalls) :
    Disposed r' session targetId := by
  rcases h with h | h | h
  · rcases howner h with h | h
    · exact .inl h
    · exact .inr (.inl h)
  · exact .inr (.inl (hgone h))
  · exact .inr (.inr (hcalls h))

theorem record_claimTarget {state : SessionState} {targetId : Text}
    (h : claimTarget o r state targetId = .ok r') :
    r'.record = (r.ownerByTargetId.set targetId state.sessionId, r.gone, r.backendCalls) := by
  unfold claimTarget at h
  split at h
  · cases h
  obtain ⟨-, -, h⟩ := bind_eq_ok.mp h
  dsimp only at h
  split at h
  · obtain rfl := Except.ok.inj h
    rfl
  · split at h
    · obtain rfl := Except.ok.inj h
      rw [record_appendEvent]
      rfl
    · obtain rfl := Except.ok.inj h
      rfl

theorem Disposed.claim {state : SessionState} {targetId claimed : Text}
    (hclaim : claimTarget o r state claimed = .ok r') (h : Disposed r session targetId) :
    Disposed r' session targetId := by
  obtain ⟨howner, hgone, hcalls⟩ : r'.ownerByTargetId = r.ownerByTargetId.set claimed state.sessionId ∧
      r'.gone = r.gone ∧ r'.backendCalls = r.backendCalls := by
    simpa [Router.record] using record_claimTarget hclaim
  refine h.mono (fun ho => .inl ?_) (by rw [hgone]; simp) (by rw [hcalls]; simp)
  rw [howner, OrderedMap.get_set]
  split
  · rename_i he
    subst he
    rw [(claimTarget_spec hclaim).1 _ ho]
  · exact ho

theorem record_releaseTarget (targetId : Text) :
    (releaseTarget r targetId).gone = r.gone ∧
    (releaseTarget r targetId).backendCalls = r.backendCalls ∧
    ∀ id, id ≠ targetId →
      (releaseTarget r targetId).ownerByTargetId.get id = r.ownerByTargetId.get id := by
  have hdelete : ∀ id, id ≠ targetId →
      (r.ownerByTargetId.delete targetId).get id = r.ownerByTargetId.get id := by
    intro id hne
    rw [OrderedMap.get_delete, if_neg (Ne.symm hne)]
  unfold releaseTarget
  split
  · exact ⟨rfl, rfl, fun _ _ => rfl⟩
  · dsimp only
    split
    · exact ⟨rfl, rfl, hdelete⟩
    · rename_i ownerId _ _ state _
      have hrecord := record_endChannels ownerId
        (state.channels.filter fun id =>
          (r.attached.get id).any fun attached => attached.physicalTargetId = targetId)
        { r with
          ownerByTargetId := r.ownerByTargetId.delete targetId
          sessions := r.sessions.set ownerId
            { state with ownedTargetIds := state.ownedTargetIds.erase targetId } }
      refine ⟨congrArg (fun x => x.2.1) hrecord, congrArg (fun x => x.2.2) hrecord, fun id hne => ?_⟩
      exact (congrArg (fun x => x.1.get id) hrecord).trans (hdelete id hne)

/-- A target that is released when it is gone is disposed of. -/
theorem Disposed.release {targetId released : Text} (h : Disposed r session targetId) :
    Disposed { releaseTarget r released with gone := r.gone ++ [released] } session targetId := by
  obtain ⟨-, hcalls, howner⟩ := record_releaseTarget (r := r) released
  refine h.mono (fun ho => ?_) (List.subset_append_left ..) ?_
  · by_cases hid : targetId = released
    · exact .inr (hid ▸ List.mem_append_right _ List.mem_cons_self)
    · exact .inl ((howner targetId hid).trans ho)
  · change r.backendCalls ⊆ (releaseTarget r released).backendCalls
    rw [hcalls]
    exact fun _ => id

theorem Disposed.announce {method targetId id : Text} {parameters : Fields}
    (h : Disposed r session targetId) :
    Disposed (announce o r method id parameters) session targetId := by
  obtain ⟨r₁, hheard, hannounce⟩ := announce_cases o r method id parameters
  have hrecord : r₁.record = r.record := by
    obtain rfl | ⟨owner, -, rfl⟩ | ⟨-, rfl⟩ := hheard
    · rfl
    · exact record_appendEvent ..
    · rfl
  have h' := (Disposed.congr hrecord).mpr h
  rcases hannounce with hannounce | hannounce <;> rw [hannounce]
  · exact h'
  · exact h'.release

theorem Disposed.handleBrowserEvent {method targetId : Text} {parameters : Fields}
    (hevent : handleBrowserEvent o r method parameters = .ok r') (h : Disposed r session targetId) :
    Disposed r' session targetId := by
  unfold Router.handleBrowserEvent at hevent
  split at hevent
  · obtain rfl := Except.ok.inj hevent
    exact h
  split at hevent
  · obtain rfl := Except.ok.inj hevent
    exact h
  split at hevent
  swap
  · cases hevent
  rename_i r₁ hclaim
  obtain rfl := Except.ok.inj hevent
  refine Disposed.announce ?_
  unfold claimOpened at hclaim
  split at hclaim
  · split at hclaim
    · exact h.claim hclaim
    · obtain rfl := Except.ok.inj hclaim
      exact h
  · obtain rfl := Except.ok.inj hclaim
    exact h

theorem record_sendTargetCommand {call : Nat} {state : SessionState} {command : CdpCommand}
    (h : sendTargetCommand o r call state command = .ok r') :
    r'.ownerByTargetId = r.ownerByTargetId ∧ r'.gone = r.gone ∧ r.backendCalls ⊆ r'.backendCalls := by
  have hsame : r'.record = r.record → r'.ownerByTargetId = r.ownerByTargetId ∧ r'.gone = r.gone ∧
      r.backendCalls ⊆ r'.backendCalls := by
    intro hrecord
    obtain ⟨howner, hgone, hcalls⟩ := (by simpa [Router.record] using hrecord :
      r'.ownerByTargetId = r.ownerByTargetId ∧ r'.gone = r.gone ∧ r'.backendCalls = r.backendCalls)
    exact ⟨howner, hgone, by rw [hcalls]; exact fun _ => id⟩
  obtain ⟨targetId, suspended, rfl⟩ | ⟨suspended, rfl⟩ | ⟨id, rfl⟩ | ⟨discoverTargets, rfl⟩ := sendTargetCommand_cases h
  · exact ⟨rfl, rfl, List.subset_append_left ..⟩
  · exact hsame rfl
  · exact hsame (record_reply ..)
  · exact hsame (record_reply ..)

theorem Disposed.send {call : Nat} {sessionId targetId : Text} {command : CdpCommand}
    (hsend : send o r call sessionId command = .ok r') (h : Disposed r session targetId) :
    Disposed r' session targetId := by
  unfold Router.send at hsend
  obtain ⟨-, -, hsend⟩ := bind_eq_ok.mp hsend
  obtain ⟨state, -, hsend⟩ := bind_eq_ok.mp hsend
  obtain ⟨-, -, hsend⟩ := bind_eq_ok.mp hsend
  split at hsend
  · obtain ⟨howner, hgone, hcalls⟩ := record_sendTargetCommand hsend
    exact h.mono (fun ho => .inl (howner ▸ ho)) (by rw [hgone]; exact fun _ => id) hcalls
  split at hsend
  · split at hsend
    · obtain rfl := Except.ok.inj hsend
      exact h
    · exact (Disposed.congr (record_sendAdmitted hsend)).mpr h
  · split at hsend
    · obtain rfl := Except.ok.inj hsend
      exact h.mono .inl (fun _ => id) (List.subset_append_left ..)
    · cases hsend

theorem Disposed.orFail {call : Nat} {targetId : Text} {check : Except RouterError Router}
    (hcheck : ∀ r', check = .ok r' → Disposed r' session targetId) (h : Disposed r session targetId) :
    Disposed (orFail r call check) session targetId := by
  cases check with
  | ok r' => exact hcheck r' rfl
  | error error => exact h

theorem Disposed.targetCreated {call : Nat} {response : Json} {asking : SessionRef} {targetId : Text}
    (h : Disposed r session targetId) :
    Disposed (targetCreated o r call asking response) session targetId := by
  unfold Router.targetCreated
  split
  · exact h
  split
  · exact h.mono .inl (fun _ => id) (List.subset_append_left ..)
  · refine Disposed.orFail (fun r' hcheck => ?_) h
    obtain ⟨r₁, hclaim, hr'⟩ := bind_eq_ok.mp hcheck
    obtain rfl := Except.ok.inj hr'
    exact (Disposed.congr (record_reply ..)).mpr (h.claim hclaim)

theorem Disposed.backendAnswers {call : Nat} {response : Option Json} {targetId : Text}
    (hstep : backendAnswers o r call response = some r') (h : Disposed r session targetId) :
    Disposed r' session targetId := by
  unfold Router.backendAnswers at hstep
  split at hstep
  · obtain rfl := Option.some.inj hstep
    exact h
  · obtain rfl := Option.some.inj hstep
    exact h
  · obtain rfl := Option.some.inj hstep
    exact h
  · obtain rfl := Option.some.inj hstep
    exact h
  · obtain rfl := Option.some.inj hstep
    exact h
  · obtain rfl := Option.some.inj hstep
    exact (Disposed.congr (record_reply ..)).mpr h
  · obtain rfl := Option.some.inj hstep
    exact (Disposed.congr (record_reply ..)).mpr h
  · obtain rfl := Option.some.inj hstep
    exact h.targetCreated
  · obtain rfl := Option.some.inj hstep
    exact (Disposed.congr (record_reply ..)).mpr h.release
  · cases hstep

theorem record_attachSettles {call : Nat} {channel : Option Text}
    (hstep : attachSettles o r call channel = some r') : r'.record = r.record := by
  unfold attachSettles at hstep
  split at hstep
  · split at hstep
    · cases hstep
    · obtain rfl := Option.some.inj hstep
      unfold channelOpens
      split
      · split
        · exact record_reply ..
        · rfl
      · rfl
  · obtain rfl := Option.some.inj hstep
    rfl
  · cases hstep

theorem record_surfaceResolves {call : Nat} {found : Option Bool}
    (hstep : surfaceResolves o r call found = some r') : r'.record = r.record := by
  unfold surfaceResolves at hstep
  split at hstep
  · obtain rfl := Option.some.inj hstep
    exact record_reply ..
  · obtain rfl := Option.some.inj hstep
    rfl
  · obtain rfl := Option.some.inj hstep
    rfl
  · cases hstep

theorem record_inventorySettles {id : Text} {enabled : Bool}
    (hstep : inventorySettles r id enabled = some r') : r'.record = r.record := by
  unfold inventorySettles at hstep
  split at hstep
  · cases hstep
  split at hstep
  · cases hstep
  split at hstep
  · obtain rfl := Option.some.inj hstep
    rfl
  dsimp only at hstep
  split at hstep
  · split at hstep
    · obtain rfl := Option.some.inj hstep
      rfl
    · obtain rfl := Option.some.inj hstep
      rfl
  · obtain rfl := Option.some.inj hstep
    rfl

theorem record_channelAnswers {call : Nat} {result : Option Json}
    (hstep : channelAnswers o r call result = some r') : r'.record = r.record := by
  unfold channelAnswers at hstep
  split at hstep
  swap
  · cases hstep
  split at hstep
  · cases hstep
  · split at hstep
    · obtain rfl := Option.some.inj hstep
      rfl
    · obtain rfl := Option.some.inj hstep
      exact record_reply ..
  · obtain rfl := Option.some.inj hstep
    rfl

theorem record_handlePageEvent (id : Text) (attached : AttachedChannel) (method : Text)
    (parameters : Fields) : (handlePageEvent o r id attached method parameters).record = r.record := by
  unfold handlePageEvent
  split
  · rfl
  split
  · rfl
  dsimp only
  split
  · rfl
  split
  · rfl
  split
  · rfl
  split
  · rfl
  · exact record_appendEvent ..

theorem record_publishDialog (asking : SessionRef) (targetId method : Text) (parameters : Fields) :
    (publishDialog o r asking targetId method parameters).record = r.record := by
  unfold publishDialog
  split
  · rfl
  refine record_foldl (fun r id => ?_) _ _
  split
  · split
    · exact record_appendEvent ..
    · rfl
  · rfl

theorem Disposed.resumes {call : Nat} {targetId : Text} (hstep : resumes o r call = some r')
    (h : Disposed r session targetId) : Disposed r' session targetId := by
  unfold Router.resumes at hstep
  split at hstep
  swap
  · cases hstep
  split at hstep
  · cases hstep
  split at hstep
  · obtain rfl := Option.some.inj hstep
    exact h.orFail fun r₁ hsend => (Disposed.congr (record_sendAdmitted hsend)).mpr h
  · obtain rfl := Option.some.inj hstep
    exact h
  · split at hstep
    · obtain rfl := Option.some.inj hstep
      exact h
    · cases hstep

theorem Disposed.unregisterSession (hok : r.view.Ok max) {sessionId targetId : Text}
    (hne : sessionId ≠ session.sessionId) (h : Disposed r session targetId) :
    Disposed (unregisterSession r sessionId) session targetId := by
  have hrecord : (Router.unregisterSession r sessionId).gone = r.gone ∧
      (Router.unregisterSession r sessionId).backendCalls = r.backendCalls := by
    unfold Router.unregisterSession
    split
    · exact ⟨rfl, rfl⟩
    · rename_i state _
      have hends := record_endChannels sessionId state.channels { r with
        sessions := r.sessions.delete sessionId
        ownerByTargetId := state.ownedTargetIds.foldl OrderedMap.delete r.ownerByTargetId }
      exact ⟨congrArg (fun x => x.2.1) hends, congrArg (fun x => x.2.2) hends⟩
  refine h.mono (fun ho => .inl ?_) (by rw [hrecord.1]; exact fun _ => id)
    (by rw [hrecord.2]; exact fun _ => id)
  have hview := congrArg (fun v => v.owner targetId) (view_unregisterSession hok sessionId)
  refine hview.trans ?_
  change (if r.ownerByTargetId.get targetId = some sessionId then none
    else r.ownerByTargetId.get targetId) = _
  rw [ho, if_neg (fun he => hne (Option.some.inj he).symm)]

/-- The session does not end in the step. -/
def Goes (sessionId : Text) : Action → Prop
  | .unregisterSession ended => ended ≠ sessionId
  | .close => False
  | _ => True

theorem Disposed.step (hok : r.view.Ok max) {a : Action} (hgoes : Goes session.sessionId a)
    (hstep : (machine o).step r a = some r') {targetId : Text} (h : Disposed r session targetId) :
    Disposed r' session targetId := by
  cases a with
  | registerSession sessionId rootTargetId filesRoot =>
    obtain rfl := Option.some.inj hstep
    cases hregister : registerSession o r sessionId rootTargetId filesRoot with
    | error error => exact h
    | ok r₁ =>
      change Disposed r₁ session targetId
      obtain ⟨-, hfree, -⟩ := registerSession_spec hregister
      simp only [registerSession, bind_eq_ok] at hregister
      obtain ⟨-, -, -, -, -, -, -, -, -, -, -, -, -, -, hr₁⟩ := hregister
      obtain rfl := Except.ok.inj hr₁
      refine h.mono (fun ho => .inl ?_) (fun _ => id) (fun _ => id)
      rw [OrderedMap.get_set, if_neg]
      · exact ho
      · rintro rfl
        cases hfree.symm.trans ho
  | unregisterSession sessionId =>
    obtain rfl := Option.some.inj hstep
    exact h.unregisterSession hok hgoes
  | close => exact hgoes.elim
  | claimTarget sessionId claimed =>
    obtain rfl := Option.some.inj hstep
    cases hclaim : Router.claim o r sessionId claimed with
    | error error => exact h
    | ok r₁ =>
      change Disposed r₁ session targetId
      obtain ⟨-, -, hclaim⟩ := bind_eq_ok.mp hclaim
      obtain ⟨-, -, hclaim⟩ := bind_eq_ok.mp hclaim
      obtain ⟨state, -, hclaim⟩ := bind_eq_ok.mp hclaim
      split at hclaim
      · obtain rfl := Except.ok.inj hclaim
        exact h
      · exact h.claim hclaim
  | useDialogEvents sessionId =>
    obtain rfl := Option.some.inj hstep
    exact h
  | dialogEvent asking target opening parameters =>
    obtain rfl := Option.some.inj hstep
    exact (Disposed.congr (record_publishDialog ..)).mpr h
  | browserEvent method parameters =>
    rcases step_browserEvent hstep with hevent | ⟨error, -, rfl⟩
    · exact h.handleBrowserEvent hevent
    · exact h
  | pageEvent id method parameters =>
    obtain ⟨attached, -, rfl⟩ := step_pageEvent hstep
    exact (Disposed.congr (record_handlePageEvent ..)).mpr h
  | send call sessionId command =>
    obtain ⟨-, rfl⟩ := step_send hstep
    exact h.orFail fun r₁ hsend => h.send hsend
  | backendAnswers call response => exact h.backendAnswers hstep
  | attachSettles call channel => exact (Disposed.congr (record_attachSettles hstep)).mpr h
  | surfaceResolves call found => exact (Disposed.congr (record_surfaceResolves hstep)).mpr h
  | inventorySettles id enabled => exact (Disposed.congr (record_inventorySettles hstep)).mpr h
  | resumes call => exact h.resumes hstep
  | channelAnswers call result => exact (Disposed.congr (record_channelAnswers hstep)).mpr h

/-! ## Runs -/

/-- A target just created is disposed of exactly if it is claimable. -/
theorem disposed_targetCreated (hok : r.view.Ok max) {call : Nat} {response : Json} {targetId : Text}
    (hcreated : createdTarget response = some targetId) :
    Disposed (targetCreated o r call session response) session targetId ↔
      Claimable o r session targetId := by
  have hfails : ∀ r₁ : Router, r₁.record = r.record →
      ¬ (1 ≤ targetId.length ∧ targetId.length ≤ 512 ∧ ∀ state ∈ r.state? session,
        (∀ owner ∈ r.ownerByTargetId.get targetId, owner = session.sessionId) ∧
        state.ownedTargetIds.length < o.limits.maxTargetsPerSession) →
      (Disposed r₁ session targetId ↔ Claimable o r session targetId) := by
    intro r₁ hrecord hnot
    rw [Disposed.congr hrecord]
    exact (or_iff_left hnot).symm
  have hread : (readString (asRecord (some response)) (units "targetId")).filter (fun id => id ≠ []) =
      if 1 ≤ targetId.length ∧ targetId.length ≤ 512 then some targetId else none := by
    unfold createdTarget at hcreated
    split at hcreated
    · rename_i id hget
      obtain rfl := Option.some.inj hcreated
      unfold readString
      rw [hget]
      dsimp only
      by_cases hle : id.length ≤ 512
      · rw [if_pos hle]
        by_cases hpos : 1 ≤ id.length
        · rw [if_pos ⟨hpos, hle⟩, Option.filter_some, if_pos]
          exact decide_eq_true (List.length_pos_iff.mp hpos)
        · rw [if_neg (fun h => hpos h.1), Option.filter_some, if_neg]
          simpa using hpos
      · rw [if_neg hle, if_neg (fun h => hle h.2)]
        rfl
    · cases hcreated
  unfold targetCreated
  rw [hread]
  by_cases hid : 1 ≤ targetId.length ∧ targetId.length ≤ 512
  swap
  · rw [if_neg hid]
    exact hfails _ rfl fun h => hid ⟨h.1, h.2.1⟩
  rw [if_pos hid]
  dsimp only
  cases hs : r.state? session with
  | none =>
    -- The session ended, and the tab is told to close.
    refine iff_of_true (.inr (.inr (List.mem_append_right _ List.mem_cons_self))) (.inr ?_)
    rw [hs]
    exact ⟨hid.1, hid.2, fun _ h => nomatch h⟩
  | some state =>
    dsimp only
    have hsession : state.sessionId = session.sessionId :=
      hok.ids _ state.view (by simp only [Router.view, (state?_eq_some hs).1, Option.map_some])
    cases hclaim : claimTarget o r state targetId with
    | ok r₁ =>
      obtain ⟨hother, hcapacity, -⟩ := claimTarget_spec hclaim
      refine iff_of_true ?_ (.inr ⟨hid.1, hid.2, fun _ h => ?_⟩)
      · change Disposed (reply o r₁ call _ none) session targetId
        refine (Disposed.congr (record_reply ..)).mpr (.inl ?_)
        have howner := congrArg (fun x => x.1.get targetId) (record_claimTarget hclaim)
        refine Eq.trans howner ?_
        change (r.ownerByTargetId.set targetId state.sessionId).get targetId = _
        rw [OrderedMap.get_set, if_pos rfl, hsession]
      · obtain rfl := Option.some.inj (hs.symm.trans h)
        exact ⟨fun owner ho => (hother owner ho).trans hsession, hcapacity⟩
    | error error =>
      refine hfails _ rfl fun h => ?_
      obtain ⟨hother, hcapacity⟩ := h.2.2 state hs
      have hisOk := claimTarget_isOk (r := r) targetId hcapacity
      rw [hclaim] at hisOk
      have hany : (r.ownerByTargetId.get targetId).any (fun owner => owner ≠ state.sessionId) = true := by
        simpa [Except.isOk, Except.toBool] using hisOk
      obtain ⟨owner, ho, hne⟩ := (Option.any_eq_true ..).mp hany
      exact of_decide_eq_true hne ((hother owner ho).trans hsession.symm)

theorem ok_run {as : List Action} (hrun : (machine o).run initial as = some r) :
    r.view.Ok o.limits.maxTargetsPerSession :=
  (machine o).invariant (P := fun r => r.view.Ok o.limits.maxTargetsPerSession) (ok_initial _)
    (fun _ _ _ hok hstep => (ok_step hok hstep).1) hrun

/-- In every run, a tab the browser opens for a session's `Target.createTarget` is
disposed of when the command is answered exactly if it was claimable, and it stays so
until the session ends. -/
theorem created_target_disposed (o : Options) (as : List Action) (r : Router)
    (hrun : (machine o).run initial as = some r) (call : Nat) (session : SessionRef) (response : Json)
    (targetId : Text) (hcall : r.calls.get call = some (.createTarget session))
    (hcreated : createdTarget response = some targetId) :
    ∃ answered, (machine o).step r (.backendAnswers call (some response)) = some answered ∧
      (Disposed answered session targetId ↔ Claimable o r session targetId) ∧
      ∀ bs r', (machine o).run answered bs = some r' → (∀ a ∈ bs, Goes session.sessionId a) →
        Disposed answered session targetId → Disposed r' session targetId := by
  have hstep : (machine o).step r (.backendAnswers call (some response)) =
      some (targetCreated o r call session response) := by
    change backendAnswers o r call (some response) = _
    unfold backendAnswers
    rw [hcall]
  have hok := ok_run hrun
  refine ⟨_, hstep, disposed_targetCreated hok hcreated, fun bs r' hlater hgoes hdisposed => ?_⟩
  have hok' := (ok_step hok hstep).1
  generalize targetCreated o r call session response = answered at hlater hdisposed hok'
  induction bs generalizing answered with
  | nil =>
    obtain rfl := Option.some.inj hlater
    exact hdisposed
  | cons a bs ih =>
    obtain ⟨next, hnext, hlater⟩ := ((machine o).run_cons_eq_some).mp hlater
    exact ih (fun b hb => hgoes b (List.mem_cons_of_mem a hb)) next hlater
      (hdisposed.step hok' (hgoes a List.mem_cons_self) hnext) (ok_step hok' hnext).1

/-- An agent of session `b` asks for a tab. -/
def askTab (call : Nat) : Action :=
  .send call (units "b") ⟨units "Target.createTarget",
    some (.object [(units "url", .string (units "about:blank"))]), none⟩

def openedTab (targetId : Text) : Json := .object [(units "targetId", .string targetId)]

theorem created_target_disposed_run : ∃ r,
    (machine roomyOptions).run initial
      [.registerSession (units "b") (units "root") (units "/files"), askTab 1] = some r ∧
    ∃ answered, (machine roomyOptions).step r
        (.backendAnswers 1 (some (openedTab (units "tab")))) = some answered ∧
      (Disposed answered ⟨units "b", 0⟩ (units "tab") ↔
        Claimable roomyOptions r ⟨units "b", 0⟩ (units "tab")) ∧
      ∀ bs r', (machine roomyOptions).run answered bs = some r' →
        (∀ a ∈ bs, Goes (units "b") a) → Disposed answered ⟨units "b", 0⟩ (units "tab") →
          Disposed r' ⟨units "b", 0⟩ (units "tab") :=
  (machine roomyOptions).exists_run (by decide +kernel) fun r hrun =>
    created_target_disposed roomyOptions _ r hrun 1 ⟨units "b", 0⟩ (openedTab (units "tab"))
      (units "tab") (by obtain rfl := Option.some.inj hrun; rfl) rfl

instance (r : Router) (session : SessionRef) (targetId : Text) :
    Decidable (Disposed r session targetId) := by
  unfold Disposed
  infer_instance

/-- Two tabs are asked for at once, and there is room for one. -/
def crowdedRun : List Action :=
  [.registerSession (units "b") (units "root") (units "/files"), askTab 1, askTab 2,
    .backendAnswers 1 (some (openedTab (units "tab"))),
    .backendAnswers 2 (some (openedTab (units "orphan")))]

theorem orphan_not_disposed : ∃ r, (machine roomyOptions).run initial crowdedRun = some r ∧
    (r.calls.keys = [] ∧ ¬ Disposed r ⟨units "b", 0⟩ (units "orphan")) :=
  (machine roomyOptions).exists_run_of_any (by decide +kernel)

end Opensteer.SessionCdpRouter
