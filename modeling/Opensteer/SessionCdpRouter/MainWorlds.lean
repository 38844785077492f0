import Opensteer.SessionCdpRouter.Ownership

/-!
# What agents are given of a page

A step adds to the router's outputs (`Adds`), and what it adds of a channel is
`Admitted` by the contexts the channel then has: a command that goes to the page and
a result or an event that goes to the agent hold handles of main worlds only
(`admitted_step`). The events that tell of a context are for main worlds, and are
not scanned; nor are the dialog events that the ledger gives.
-/

namespace Opensteer.SessionCdpRouter

open Router

/-! ## What is admitted -/

/-- The contexts of a channel. -/
def Router.contextsOf (r : Router) (id : Text) : Option ExecutionContextInventory :=
  (r.attached.get id).map AttachedChannel.contexts

/-- The event is of the context's creation or destruction, or tells again that it exists. -/
def Tells (contexts : ExecutionContextInventory) (event : CdpEvent) (entry : ExecutionContextEntry) :
    Prop :=
  (contexts.observe event.method event.parameters).2 = some entry ∨
    (entry ∈ contexts.entries.values ∧ event.method = units "Runtime.executionContextCreated" ∧
      event.parameters = [(units "context", .object entry.description)])

def IsContextEvent (method : Text) : Prop :=
  method = units "Runtime.executionContextCreated" ∨ method = units "Runtime.executionContextDestroyed"

instance : DecidablePred IsContextEvent := fun _ => inferInstanceAs (Decidable (_ ∨ _))

/-- The ledger gives a dialog's event. -/
def Router.Action.IsDialog : Action → Prop
  | .dialogEvent .. => True
  | _ => False

/-- What a step gives a page or an agent. What is of a channel has the contexts the
channel then has, and holds no other handles than those of its main worlds. -/
def Admitted (r r' : Router) (a : Action) : Output → Prop
  | .command id _ parameters contexts =>
    r'.contextsOf id = some contexts ∧
      ∀ fields, parameters = some fields → Clean contexts .command (.object fields)
  | .event _ event (some contexts) =>
    ∃ id, event.sessionId = some id ∧ r'.contextsOf id = some contexts ∧
      if IsContextEvent event.method then
        ∃ before entry, r.contextsOf id = some before ∧ Tells before event entry ∧ entry.mainWorld = true
      else a.IsDialog ∨ Clean contexts .message (.object event.parameters)
  | .event _ event none => event.sessionId = none
  | .result call result (some contexts) =>
    ∃ id, r'.contextsOf id = some contexts ∧
      (∀ id' method, r.calls.get call = some (.page id' method) → id' = id) ∧
      Clean contexts .message result
  | .result call _ none => ∀ id method, r.calls.get call ≠ some (.page id method)
  | .failed _ _ => True

/-- What is not of a channel. -/
def Output.Plain (r : Router) : Output → Prop
  | .command .. => False
  | .event _ e contexts => contexts = none ∧ e.sessionId = none
  | .result call _ contexts => contexts = none ∧ ∀ id method, r.calls.get call ≠ some (.page id method)
  | .failed _ _ => True

/-- What is added to the outputs is `P`. -/
def Adds (P : Output → Prop) (r r' : Router) : Prop :=
  ∃ new, r'.outputs = r.outputs ++ new ∧ ∀ out ∈ new, P out

variable {o : Options} {r r' r'' : Router} {session : SessionRef} {P Q : Output → Prop} {a : Action}

theorem Output.Plain.admitted {out : Output} (h : out.Plain r) : Admitted r r' a out := by
  cases out with
  | command => exact h.elim
  | event sessionId event contexts =>
    obtain ⟨rfl, hid⟩ := h
    exact hid
  | result call result contexts =>
    obtain ⟨rfl, hcall⟩ := h
    exact hcall
  | failed => trivial

theorem Adds.of_eq (h : r'.outputs = r.outputs) : Adds P r r' := ⟨[], by simp [h], by simp⟩

theorem Adds.one {out : Output} (h : r'.outputs = r.outputs ++ [out]) (hP : P out) : Adds P r r' :=
  ⟨[out], h, by simpa using hP⟩

theorem Adds.trans (h : Adds P r r') (h' : Adds P r' r'') : Adds P r r'' := by
  obtain ⟨new, hnew, hP⟩ := h
  obtain ⟨new', hnew', hP'⟩ := h'
  refine ⟨new ++ new', by rw [hnew', hnew, List.append_assoc], fun out hout => ?_⟩
  exact (List.mem_append.mp hout).elim (hP out) (hP' out)

theorem Adds.mono (h : Adds P r r') (hPQ : ∀ out, P out → Q out) : Adds Q r r' := by
  obtain ⟨new, hnew, hP⟩ := h
  exact ⟨new, hnew, fun out hout => hPQ out (hP out hout)⟩

theorem adds_appendEvent {method : Text} {parameters : Fields} {id : Option Text}
    {contexts : Option ExecutionContextInventory}
    (hP : ∀ event : CdpEvent, event.method = method → event.parameters = parameters →
      event.sessionId = id → P (.event session.sessionId event contexts)) :
    Adds P r (appendEvent o r session method parameters id contexts) := by
  unfold appendEvent
  split
  · exact .of_eq rfl
  · by_cases hbytes : o.limits.maxEventBytes <
        o.eventBytes ⟨method, parameters, (‹SessionState›).nextSequence, id⟩
    · exact .of_eq (if_pos hbytes)
    · exact .one (if_neg hbytes) (hP _ rfl rfl rfl)

theorem adds_reply {call : Nat} {result : Json} {contexts : Option ExecutionContextInventory}
    (hfail : ∀ failure, P (.failed call failure)) (hP : P (.result call result contexts)) :
    Adds P r (reply o r call result contexts) := by
  unfold reply
  split
  · exact .one rfl (hfail _)
  · exact .one rfl hP

theorem adds_foldl {α : Type} {f : Router → α → Router} {as : List α} (I : Router → Prop)
    (hr : I r) (hf : ∀ r, I r → ∀ a ∈ as, I (f r a) ∧ Adds P r (f r a)) : Adds P r (as.foldl f r) := by
  induction as generalizing r with
  | nil => exact .of_eq rfl
  | cons a as ih =>
    obtain ⟨hI, hadds⟩ := hf r hr a List.mem_cons_self
    exact hadds.trans (ih hI fun r hr b hb => hf r hr b (List.mem_cons_of_mem a hb))

/-! ## What is not of a channel -/

theorem outputs_endChannels (sessionId : Text) (ids : List Text) (r : Router) :
    (ids.foldl (fun r id => endChannel r sessionId id) r).outputs = r.outputs := by
  induction ids generalizing r with
  | nil => rfl
  | cons id ids ih =>
    rw [List.foldl_cons, ih]
    rfl

theorem outputs_unregisterSession (sessionId : Text) :
    (unregisterSession r sessionId).outputs = r.outputs := by
  unfold unregisterSession
  split
  · rfl
  · exact outputs_endChannels ..

theorem outputs_releaseTarget (targetId : Text) : (releaseTarget r targetId).outputs = r.outputs := by
  unfold releaseTarget
  split
  · rfl
  · dsimp only
    split
    · rfl
    · exact outputs_endChannels ..

theorem plain_claimTarget {state : SessionState} {targetId : Text} {r₀ : Router}
    (h : claimTarget o r state targetId = .ok r') : Adds (Output.Plain r₀) r r' := by
  unfold claimTarget at h
  split at h
  · cases h
  obtain ⟨-, -, h⟩ := bind_eq_ok.mp h
  dsimp only at h
  split at h
  · obtain rfl := Except.ok.inj h
    exact .of_eq rfl
  · split at h
    · obtain rfl := Except.ok.inj h
      exact (Adds.of_eq rfl).trans (adds_appendEvent fun event _ _ hid => ⟨rfl, hid⟩)
    · obtain rfl := Except.ok.inj h
      exact .of_eq rfl

theorem plain_handleBrowserEvent {method : Text} {parameters : Fields} {r₀ : Router}
    (hevent : handleBrowserEvent o r method parameters = .ok r') : Adds (Output.Plain r₀) r r' := by
  unfold handleBrowserEvent at hevent
  split at hevent
  · obtain rfl := Except.ok.inj hevent
    exact .of_eq rfl
  split at hevent
  · obtain rfl := Except.ok.inj hevent
    exact .of_eq rfl
  split at hevent
  swap
  · cases hevent
  rename_i targetId _ _ r₁ hclaim
  obtain rfl := Except.ok.inj hevent
  have hclaimed : Adds (Output.Plain r₀) r r₁ := by
    unfold claimOpened at hclaim
    split at hclaim
    · split at hclaim
      · exact plain_claimTarget hclaim
      · obtain rfl := Except.ok.inj hclaim
        exact .of_eq rfl
    · obtain rfl := Except.ok.inj hclaim
      exact .of_eq rfl
  refine hclaimed.trans ?_
  obtain ⟨r₂, hheard, hannounce⟩ := announce_cases o r₁ method targetId parameters
  have hheard : Adds (Output.Plain r₀) r₁ r₂ := by
    obtain rfl | ⟨owner, -, rfl⟩ | ⟨-, rfl⟩ := hheard
    · exact .of_eq rfl
    · exact adds_appendEvent fun event _ _ hid => ⟨rfl, hid⟩
    · exact .of_eq rfl
  rcases hannounce with hannounce | hannounce <;> rw [hannounce]
  · exact hheard
  · exact hheard.trans (.of_eq (outputs_releaseTarget targetId))

theorem plain_sendTargetCommand {call : Nat} {state : SessionState} {command : CdpCommand}
    (hcall : r.calls.get call = none) (h : sendTargetCommand o r call state command = .ok r') :
    Adds (Output.Plain r) r r' := by
  have hreply : ∀ r₁ : Router, r₁.outputs = r.outputs →
      Adds (Output.Plain r) r (reply o r₁ call (.object []) none) := by
    intro r₁ houtputs
    refine (Adds.of_eq houtputs).trans (adds_reply (fun _ => trivial) ⟨rfl, fun id method => ?_⟩)
    simp [hcall]
  obtain ⟨targetId, suspended, rfl⟩ | ⟨suspended, rfl⟩ | ⟨id, rfl⟩ | ⟨discoverTargets, rfl⟩ := sendTargetCommand_cases h
  · exact .of_eq rfl
  · exact .of_eq rfl
  · exact hreply _ rfl
  · exact hreply _ rfl

theorem plain_orFail {call : Nat} {check : Except RouterError Router}
    (hcheck : ∀ r', check = .ok r' → Adds (Output.Plain r) r r') :
    Adds (Output.Plain r) r (orFail r call check) := by
  cases check with
  | ok r' => exact hcheck r' rfl
  | error error => exact .one rfl trivial

theorem plain_backendAnswers {call : Nat} {response : Option Json}
    (hstep : backendAnswers o r call response = some r') : Adds (Output.Plain r) r r' := by
  have hreply : ∀ (r₁ : Router) (result : Json) (suspended : Suspended),
      r.calls.get call = some suspended → (∀ id method, suspended ≠ .page id method) →
      Adds (Output.Plain r) r₁ (reply o r₁ call result none) := by
    intro r₁ result suspended hcall hne
    refine adds_reply (fun _ => trivial) ⟨rfl, fun id method h => ?_⟩
    exact hne id method (Option.some.inj (hcall.symm.trans h))
  unfold backendAnswers at hstep
  split at hstep
  · obtain rfl := Option.some.inj hstep
    exact .one rfl trivial
  · obtain rfl := Option.some.inj hstep
    exact .one rfl trivial
  · obtain rfl := Option.some.inj hstep
    exact .one rfl trivial
  · obtain rfl := Option.some.inj hstep
    exact .one rfl trivial
  · obtain rfl := Option.some.inj hstep
    exact .one rfl trivial
  · rename_i hcall
    obtain rfl := Option.some.inj hstep
    exact hreply _ _ _ hcall (by simp)
  · rename_i hcall
    obtain rfl := Option.some.inj hstep
    exact hreply _ _ _ hcall (by simp)
  · rename_i asking response hcall
    obtain rfl := Option.some.inj hstep
    unfold targetCreated
    split
    · exact .one rfl trivial
    split
    · exact .of_eq rfl
    · refine plain_orFail fun r₁ hcheck => ?_
      obtain ⟨r₂, hclaim, hr₁⟩ := bind_eq_ok.mp hcheck
      obtain rfl := Except.ok.inj hr₁
      exact (plain_claimTarget hclaim).trans (hreply _ _ _ hcall (by simp))
  · rename_i targetId response hcall
    obtain rfl := Option.some.inj hstep
    exact (Adds.of_eq (outputs_releaseTarget targetId)).trans (hreply _ _ _ hcall (by simp))
  · cases hstep

theorem plain_attachSettles {call : Nat} {channel : Option Text}
    (hstep : attachSettles o r call channel = some r') : Adds (Output.Plain r) r r' := by
  unfold attachSettles at hstep
  split at hstep
  · rename_i asking targetId id hcall
    split at hstep
    · cases hstep
    obtain rfl := Option.some.inj hstep
    unfold channelOpens
    split
    · split
      · refine (Adds.of_eq rfl).trans (adds_reply (fun _ => trivial) ⟨rfl, fun id method => ?_⟩)
        simp [hcall]
      · exact .one rfl trivial
    · exact .one rfl trivial
  · obtain rfl := Option.some.inj hstep
    exact .one rfl trivial
  · cases hstep

theorem plain_surfaceResolves {call : Nat} {found : Option Bool}
    (hstep : surfaceResolves o r call found = some r') : Adds (Output.Plain r) r r' := by
  unfold surfaceResolves at hstep
  split at hstep
  · rename_i hcall
    obtain rfl := Option.some.inj hstep
    exact adds_reply (fun _ => trivial) ⟨rfl, fun id method => by simp [hcall]⟩
  · obtain rfl := Option.some.inj hstep
    exact .one rfl trivial
  · obtain rfl := Option.some.inj hstep
    exact .one rfl trivial
  · cases hstep

theorem outputs_inventorySettles {id : Text} {enabled : Bool}
    (hstep : inventorySettles r id enabled = some r') : r'.outputs = r.outputs := by
  unfold inventorySettles at hstep
  split at hstep
  · cases hstep
  split at hstep
  · cases hstep
  split at hstep
  · obtain rfl := Option.some.inj hstep
    rfl
  dsimp only at hstep
  split at hstep
  · split at hstep
    · obtain rfl := Option.some.inj hstep
      rfl
    · obtain rfl := Option.some.inj hstep
      rfl
  · obtain rfl := Option.some.inj hstep
    rfl

/-! ## Commands to a page -/

/-- A command that is admitted is scanned whole. -/
theorem admitAttachedCommand_spec {id method : Text} {parameters : Fields} {attached : AttachedChannel}
    (h : admitAttachedCommand o r session id method parameters = .ok attached) :
    r.attached.get id = some attached ∧ Clean attached.contexts .command (.object parameters) := by
  unfold admitAttachedCommand at h
  dsimp only at h
  split at h
  swap
  · cases h
  rename_i state attached' hs hattached
  obtain ⟨_, hrefusal, h⟩ := bind_eq_ok.mp h
  obtain ⟨-, -, h⟩ := bind_eq_ok.mp h
  obtain ⟨-, -, h⟩ := bind_eq_ok.mp h
  obtain ⟨-, -, h⟩ := bind_eq_ok.mp h
  obtain ⟨-, -, h⟩ := bind_eq_ok.mp h
  obtain rfl := Except.ok.inj h
  constructor
  · rw [hs, Option.bind_some] at hattached
    split at hattached
    · exact hattached
    · cases hattached
  · have hscan : objectHandleRefusal method parameters attached'.contexts = none := by
      cases hfound : (o.agentPageCommandRefusal method parameters).or
          (objectHandleRefusal method parameters attached'.contexts) with
      | some refusal =>
        rw [hfound] at hrefusal
        cases hrefusal
      | none => exact (Option.or_eq_none_iff.mp hfound).2
    exact foreignObjectHandle_eq_none.mp (Option.map_eq_none_iff.mp hscan)

/-- `agentObjectGroups` adds no handle. -/
theorem clean_agentObjectGroups {contexts : ExecutionContextInventory} {parameters fields : Fields}
    {id : Text} (h : Clean contexts .command (.object parameters))
    (hfields : agentObjectGroups (some parameters) id = some fields) :
    Clean contexts .command (.object fields) := by
  have hdata : ∀ record key, isPageData .command (isByValue .command record) key = false := by
    intro record key
    simp [isPageData, isByValue]
  simp only [agentObjectGroups, Option.map_some, Option.some.injEq] at hfields
  subst hfields
  split
  · rename_i group hget
    refine clean_object.mpr fun key value hv _ => ?_
    rcases Fields.mem_set hv with hv | he
    · exact clean_object.mp h key value hv (hdata _ _)
    · obtain ⟨rfl, rfl⟩ := Prod.mk.inj he
      refine ⟨fun hkey => absurd hkey (by decide), clean_leaf (by simp) (by simp)⟩
  · exact h

theorem contextsOf_setAttached {id : Text} {f : AttachedChannel → AttachedChannel}
    (hf : ∀ a, (f a).contexts = a.contexts) : (setAttached r id f).contextsOf = r.contextsOf := by
  funext id'
  simp only [Router.contextsOf, setAttached, OrderedMap.get_modify]
  split
  · rename_i h
    rw [← h, Option.map_map]
    exact congrArg (Option.map · _) (funext hf)
  · rfl

theorem contextsOf_appendEvent (method : Text) (parameters : Fields) (id : Option Text)
    (contexts : Option ExecutionContextInventory) :
    (appendEvent o r session method parameters id contexts).contextsOf = r.contextsOf := by
  unfold appendEvent
  split <;> rfl

theorem contextsOf_reply (call : Nat) (result : Json) (contexts : Option ExecutionContextInventory) :
    (reply o r call result contexts).contextsOf = r.contextsOf := by
  unfold reply
  split <;> rfl

/-- The agent's `Runtime.enable` tells of main worlds again. -/
theorem adds_replay {id : Text} {contexts : ExecutionContextInventory} {r₀ r₁ : Router}
    (hbefore : r₀.contextsOf id = some contexts) (hafter : r₁.contextsOf id = some contexts)
    (houtputs : r'.outputs = r.outputs) :
    Adds (Admitted r₀ r₁ a) r ((contexts.entries.values.filter ExecutionContextEntry.mainWorld).foldl
      (fun r context => appendEvent o r session (units "Runtime.executionContextCreated")
        [(units "context", .object context.description)] (some id) (some contexts)) r') := by
  refine (Adds.of_eq houtputs).trans ?_
  refine adds_foldl (fun _ => True) trivial fun r _ context hcontext => ⟨trivial, ?_⟩
  obtain ⟨hmem, hmain⟩ := List.mem_filter.mp hcontext
  refine adds_appendEvent fun event hmethod hparameters hid => ⟨id, hid, hafter, ?_⟩
  rw [if_pos (.inl hmethod)]
  exact ⟨contexts, context, hbefore, .inr ⟨hmem, hmethod, hparameters⟩, hmain⟩

/-- What a command that goes to a page gives the page, or its agent. -/
theorem admitted_sendAdmitted {call : Nat} {command : CdpCommand}
    (hcall : ∀ id method, r.calls.get call ≠ some (.page id method))
    (h : sendAdmitted o r call session command = .ok r') : Adds (Admitted r r' a) r r' := by
  have hfields : ∀ {contexts : ExecutionContextInventory} {id : Text} {parameters : Fields},
      r'.contextsOf id = some contexts → Clean contexts .command (.object parameters) →
      Admitted r r' a (.command id command.method (agentObjectGroups (some parameters) id) contexts) :=
    fun hcontexts hclean => ⟨hcontexts, fun fields hfields => clean_agentObjectGroups hclean hfields⟩
  unfold sendAdmitted at h
  obtain ⟨attached, hadmit, h⟩ := bind_eq_ok.mp h
  obtain ⟨hattached, hclean⟩ := admitAttachedCommand_spec hadmit
  dsimp only at h
  rcases ite_eq_iff.mp h with ⟨-, h⟩ | ⟨-, h⟩
  · rw [activateTarget_ok h]
    exact .of_eq rfl
  have hbefore : r.contextsOf (command.sessionId.getD []) = some attached.contexts := by
    rw [Router.contextsOf, hattached, Option.map_some]
  have hset : ∀ (r₂ : Router) (enabled : Bool), r₂.contextsOf = r.contextsOf →
      (setAttached r₂ (command.sessionId.getD []) fun a =>
        { a with runtimeEnabled := enabled }).contextsOf = r.contextsOf := by
    intro r₂ enabled h₂
    rw [← h₂]
    exact contextsOf_setAttached fun _ => rfl
  -- The page is enabled or disabled first, which says nothing and keeps the contexts.
  have hpage : Router.contextsOf (if command.method = units "Page.enable" then
      setAttached r (command.sessionId.getD []) fun a => { a with pageEnabled := true }
      else if command.method = units "Page.disable" then
        setAttached r (command.sessionId.getD []) fun a => { a with pageEnabled := false }
      else r) = r.contextsOf ∧ Router.outputs (if command.method = units "Page.enable" then
      setAttached r (command.sessionId.getD []) fun a => { a with pageEnabled := true }
      else if command.method = units "Page.disable" then
        setAttached r (command.sessionId.getD []) fun a => { a with pageEnabled := false }
      else r) = r.outputs := by
    split
    · exact ⟨contextsOf_setAttached fun _ => rfl, rfl⟩
    · split
      · exact ⟨contextsOf_setAttached fun _ => rfl, rfl⟩
      · exact ⟨rfl, rfl⟩
  generalize (if command.method = units "Page.enable" then
      setAttached r (command.sessionId.getD []) fun a => { a with pageEnabled := true }
      else if command.method = units "Page.disable" then
        setAttached r (command.sessionId.getD []) fun a => { a with pageEnabled := false }
      else r) = r₁ at h hpage
  obtain ⟨hcontexts, houtputs⟩ := hpage
  have hempty : ∀ {r₂ : Router}, r₂.contextsOf = r.contextsOf →
      Admitted r r₂ a (.result call (.object []) (some attached.contexts)) := by
    intro r₂ hsame
    refine ⟨_, (congrFun hsame _).trans hbefore, fun id' method hpage => absurd hpage (hcall id' method), ?_⟩
    exact clean_object.mpr fun key value hv => nomatch hv
  rcases ite_eq_iff.mp h with ⟨-, h⟩ | ⟨-, h⟩
  · rcases ite_eq_iff.mp h with ⟨-, h⟩ | ⟨-, h⟩
    · obtain rfl := Except.ok.inj h
      exact (Adds.of_eq houtputs).trans (adds_reply (fun _ => trivial)
        (hempty ((contextsOf_reply ..).trans hcontexts)))
    · obtain rfl := Except.ok.inj h
      have hfold : ∀ (mainWorlds : List ExecutionContextEntry) (r₂ : Router),
          (mainWorlds.foldl (fun r context =>
            appendEvent o r session (units "Runtime.executionContextCreated")
              [(units "context", .object context.description)] (some (command.sessionId.getD []))
              (some attached.contexts)) r₂).contextsOf = r₂.contextsOf := by
        intro mainWorlds
        induction mainWorlds with
        | nil => exact fun _ => rfl
        | cons context mainWorlds ih =>
          intro r₂
          rw [List.foldl_cons, ih, contextsOf_appendEvent]
      have hsame := (contextsOf_reply (o := o) call (.object []) (some attached.contexts)).trans
        ((hfold (attached.contexts.entries.values.filter ExecutionContextEntry.mainWorld) _).trans
          (hset r₁ true hcontexts))
      refine Adds.trans (adds_replay hbefore ?_ ?_) (adds_reply (fun _ => trivial) (hempty hsame))
      · exact (congrFun hsame _).trans hbefore
      · exact houtputs
  rcases ite_eq_iff.mp h with ⟨-, h⟩ | ⟨-, h⟩
  · obtain rfl := Except.ok.inj h
    exact (Adds.of_eq houtputs).trans ((Adds.of_eq rfl).trans (adds_reply (fun _ => trivial)
      (hempty ((contextsOf_reply ..).trans (hset r₁ false hcontexts)))))
  rcases ite_eq_iff.mp h with ⟨-, h⟩ | ⟨-, h⟩
  · obtain ⟨attached', hadmit', h⟩ := bind_eq_ok.mp h
    obtain ⟨hattached', hclean'⟩ := admitAttachedCommand_spec hadmit'
    obtain rfl := Except.ok.inj h
    refine .one (congrArg (· ++ [_]) houtputs) (hfields ?_ hclean')
    exact congrArg (Option.map AttachedChannel.contexts) hattached'
  · obtain rfl := Except.ok.inj h
    refine .one (congrArg (· ++ [_]) houtputs) ?_
    cases hparameters : command.parameters with
    | none => exact ⟨(congrFun hcontexts _).trans hbefore, fun fields h => nomatch h⟩
    | some p =>
      rw [CdpCommand.fields, hparameters] at hclean
      exact hfields ((congrFun hcontexts _).trans hbefore) hclean

theorem admitted_orFail {call : Nat} {check : Except RouterError Router}
    (hcheck : ∀ r', check = .ok r' → Adds (Admitted r r' a) r r') :
    Adds (Admitted r (orFail r call check) a) r (orFail r call check) := by
  cases check with
  | ok r' => exact hcheck r' rfl
  | error error => exact .one rfl trivial

theorem admitted_send {call : Nat} {sessionId : Text} {command : CdpCommand}
    (hcall : r.calls.get call = none) (h : send o r call sessionId command = .ok r') :
    Adds (Admitted r r' a) r r' := by
  unfold send at h
  obtain ⟨-, -, h⟩ := bind_eq_ok.mp h
  obtain ⟨state, -, h⟩ := bind_eq_ok.mp h
  obtain ⟨-, -, h⟩ := bind_eq_ok.mp h
  split at h
  · exact (plain_sendTargetCommand hcall h).mono fun _ => Output.Plain.admitted
  split at h
  · split at h
    · obtain rfl := Except.ok.inj h
      exact .of_eq rfl
    · exact admitted_sendAdmitted (by simp [hcall]) h
  · split at h
    · obtain rfl := Except.ok.inj h
      exact .of_eq rfl
    · cases h

theorem admitted_resumes {call : Nat} (hstep : resumes o r call = some r') :
    Adds (Admitted r r' a) r r' := by
  unfold resumes at hstep
  split at hstep
  swap
  · cases hstep
  rename_i hcall
  split at hstep
  · cases hstep
  split at hstep
  · obtain rfl := Option.some.inj hstep
    exact admitted_orFail fun r₁ hsend => admitted_sendAdmitted (by simp [hcall]) hsend
  · obtain rfl := Option.some.inj hstep
    exact .one rfl trivial
  · split at hstep
    · obtain rfl := Option.some.inj hstep
      exact .one rfl trivial
    · cases hstep

/-! ## What a page gives -/

theorem admitted_channelAnswers {call : Nat} {result : Option Json}
    (hstep : channelAnswers o r call result = some r') : Adds (Admitted r r' a) r r' := by
  unfold channelAnswers at hstep
  split at hstep
  swap
  · cases hstep
  rename_i id method hcall
  split at hstep
  · cases hstep
  · rename_i attached result hattached
    split at hstep
    · obtain rfl := Option.some.inj hstep
      exact .one rfl trivial
    · rename_i hscan
      obtain rfl := Option.some.inj hstep
      refine adds_reply (fun _ => trivial) ⟨id, ?_, fun id' method' hpage => ?_,
        foreignObjectHandle_eq_none.mp hscan⟩
      · exact (congrFun (contextsOf_reply ..) id).trans
          (congrArg (Option.map AttachedChannel.contexts) hattached)
      · exact (Suspended.page.inj (Option.some.inj (hpage.symm.trans hcall))).1
  · obtain rfl := Option.some.inj hstep
    exact .one rfl trivial

theorem admitted_handlePageEvent {id : Text} {attached : AttachedChannel}
    (hattached : r.attached.get id = some attached) (method : Text) (parameters : Fields) :
    Adds (Admitted r (handlePageEvent o r id attached method parameters) a) r
      (handlePageEvent o r id attached method parameters) := by
  have hbefore : r.contextsOf id = some attached.contexts :=
    congrArg (Option.map AttachedChannel.contexts) hattached
  unfold handlePageEvent
  split
  · exact .of_eq rfl
  split
  · exact .of_eq rfl
  cases hobserve : attached.contexts.observe method parameters with
  | mk contexts reported =>
    dsimp only
    have hafter : (setAttached r id fun a => { a with contexts }).contextsOf id = some contexts := by
      simp only [Router.contextsOf, setAttached, OrderedMap.get_modify, if_pos, hattached,
        Option.map_some]
    split
    · exact .of_eq rfl
    split
    · exact .of_eq rfl
    by_cases hadmits : admitsAgentEvent contexts method parameters reported = true
    swap
    · rw [if_pos (by simpa using hadmits)]
      exact .of_eq rfl
    rw [if_neg (by simpa using hadmits)]
    split
    · exact .of_eq rfl
    refine (Adds.of_eq rfl).trans (adds_appendEvent fun event hmethod hparameters hid => ?_)
    refine ⟨id, hid, (congrFun (contextsOf_appendEvent ..) id).trans hafter, ?_⟩
    rw [hmethod]
    unfold admitsAgentEvent at hadmits
    by_cases hevent : IsContextEvent method
    · rw [if_pos hevent]
      replace hadmits := (if_pos hevent).symm.trans hadmits
      obtain ⟨entry, rfl, hmain⟩ := (Option.any_eq_true ..).mp hadmits
      refine ⟨attached.contexts, entry, hbefore, .inl ?_, hmain⟩
      rw [hmethod, hparameters, hobserve]
    · rw [if_neg hevent]
      replace hadmits := (if_neg hevent).symm.trans hadmits
      split at hadmits
      · cases hadmits
      split at hadmits
      · cases hadmits
      · rw [hparameters]
        exact .inr (foreignObjectHandle_eq_none.mp (by simpa using hadmits))

theorem contextsOf_publishDialog (targetId method : Text) (parameters : Fields) :
    (publishDialog o r session targetId method parameters).contextsOf = r.contextsOf := by
  unfold publishDialog
  split
  · rfl
  rename_i state hs
  clear hs
  generalize state.channels = ids
  induction ids generalizing r with
  | nil => rfl
  | cons id ids ih =>
    rw [List.foldl_cons, ih]
    split
    · split
      · exact contextsOf_appendEvent ..
      · rfl
    · rfl

theorem admitted_publishDialog {targetId method : Text} (hmethod : ¬ IsContextEvent method)
    (hdialog : a.IsDialog) (parameters : Fields) :
    Adds (Admitted r (publishDialog o r session targetId method parameters) a) r
      (publishDialog o r session targetId method parameters) := by
  have hafter : (publishDialog o r session targetId method parameters).contextsOf = r.contextsOf :=
    contextsOf_publishDialog targetId method parameters
  generalize hr' : publishDialog o r session targetId method parameters = r' at hafter
  have hadds : Adds (Admitted r r' a) r (publishDialog o r session targetId method parameters) := by
    unfold publishDialog
    split
    · exact .of_eq rfl
    refine adds_foldl (fun r₁ => r₁.contextsOf = r.contextsOf) rfl fun r₁ hsame id _ => ?_
    split
    · rename_i attached hattached
      split
      · refine ⟨(contextsOf_appendEvent ..).trans hsame, adds_appendEvent fun event he _ hid => ?_⟩
        refine ⟨id, hid, ?_, ?_⟩
        · rw [hafter, ← hsame]
          exact congrArg (Option.map AttachedChannel.contexts) hattached
        · rw [he, if_neg hmethod]
          exact .inl hdialog
      · exact ⟨hsame, .of_eq rfl⟩
    · exact ⟨hsame, .of_eq rfl⟩
  rw [hr'] at hadds
  exact hadds

/-! ## Runs -/

theorem outputs_close : (close r).outputs = r.outputs := by
  unfold close
  split
  · rfl
  have hall : ∀ (ids : List Text) (r : Router), (ids.foldl unregisterSession r).outputs = r.outputs := by
    intro ids
    induction ids with
    | nil => exact fun _ => rfl
    | cons id ids ih =>
      intro r
      rw [List.foldl_cons, ih, outputs_unregisterSession]
  exact hall _ _

/-- What a step gives pages and agents is admitted. -/
theorem admitted_step (hstep : (machine o).step r a = some r') : Adds (Admitted r r' a) r r' := by
  have hplain : Adds (Output.Plain r) r r' → Adds (Admitted r r' a) r r' :=
    fun h => h.mono fun _ => Output.Plain.admitted
  cases a with
  | registerSession sessionId rootTargetId filesRoot =>
    obtain rfl := Option.some.inj hstep
    cases hregister : registerSession o r sessionId rootTargetId filesRoot with
    | error error => exact .of_eq rfl
    | ok r₁ =>
      simp only [registerSession, bind_eq_ok] at hregister
      obtain ⟨-, -, -, -, -, -, -, -, -, -, -, -, -, -, hr₁⟩ := hregister
      obtain rfl := Except.ok.inj hr₁
      exact .of_eq rfl
  | unregisterSession sessionId =>
    obtain rfl := Option.some.inj hstep
    exact .of_eq (outputs_unregisterSession sessionId)
  | close =>
    obtain rfl := Option.some.inj hstep
    exact .of_eq outputs_close
  | claimTarget sessionId claimed =>
    obtain rfl := Option.some.inj hstep
    refine hplain ?_
    cases hclaim : claim o r sessionId claimed with
    | error error => exact .of_eq rfl
    | ok r₁ =>
      obtain ⟨-, -, hclaim⟩ := bind_eq_ok.mp hclaim
      obtain ⟨-, -, hclaim⟩ := bind_eq_ok.mp hclaim
      obtain ⟨state, -, hclaim⟩ := bind_eq_ok.mp hclaim
      split at hclaim
      · obtain rfl := Except.ok.inj hclaim
        exact .of_eq rfl
      · exact plain_claimTarget hclaim
  | useDialogEvents sessionId =>
    obtain rfl := Option.some.inj hstep
    exact .of_eq rfl
  | dialogEvent asking target opening parameters =>
    obtain rfl := Option.some.inj hstep
    refine admitted_publishDialog (a := .dialogEvent asking target opening parameters) ?_ trivial _
    cases opening <;> decide
  | browserEvent method parameters =>
    rcases step_browserEvent hstep with hevent | ⟨error, -, rfl⟩
    · exact hplain (plain_handleBrowserEvent hevent)
    · exact .of_eq rfl
  | pageEvent id method parameters =>
    obtain ⟨attached, hattached, rfl⟩ := step_pageEvent hstep
    exact admitted_handlePageEvent hattached method parameters
  | send call sessionId command =>
    obtain ⟨hcall, rfl⟩ := step_send hstep
    exact admitted_orFail fun r₁ hsend => admitted_send hcall hsend
  | backendAnswers call response => exact hplain (plain_backendAnswers hstep)
  | attachSettles call channel => exact hplain (plain_attachSettles hstep)
  | surfaceResolves call found => exact hplain (plain_surfaceResolves hstep)
  | inventorySettles id enabled => exact .of_eq (outputs_inventorySettles hstep)
  | resumes call => exact admitted_resumes hstep
  | channelAnswers call result => exact admitted_channelAnswers hstep

/-- In every run, what each step gives pages and agents is admitted. -/
theorem main_world_handles (o : Options) (as : List Action) :
    (machine o).Meets (fun r a => ∀ r', (machine o).step r a = some r' →
      ∃ new, r'.outputs = r.outputs ++ new ∧ ∀ out ∈ new, Admitted r r' a out) initial as := by
  generalize initial = r
  induction as generalizing r with
  | nil => trivial
  | cons a as ih => exact ⟨fun r' hstep => admitted_step hstep, fun r' _ => ih r'⟩

/-- A page's context is a main world, and its description has a field that a handle has. -/
def taggedContext : Fields :=
  [(units "id", .number 1), (units "auxData", .object [(units "isDefault", .bool true),
    (units "type", .string (units "default")), (units "frameId", .string (units "frame")),
    (units "objectId", .string (units "tag"))])]

/-- An agent attaches to its page and enables `Runtime`; then the page reports the context. -/
def taggedRun : List Action :=
  [.registerSession (units "b") (units "root") (units "/files"),
    .send 1 (units "b") ⟨units "Target.attachToTarget",
      some (.object [(units "targetId", .string (units "root"))]), none⟩,
    .attachSettles 1 (some (units "channel")),
    .inventorySettles (units "channel") true,
    .send 2 (units "b") ⟨units "Runtime.enable", none, some (units "channel")⟩,
    .resumes 2,
    .pageEvent (units "channel") (units "Runtime.executionContextCreated")
      [(units "context", .object taggedContext)]]

/-- An agent hears of a page's event that names a handle of no main world. -/
def Output.isForeign : Output → Bool
  | .event _ told (some contexts) =>
    (foreignObjectHandle (.object told.parameters) contexts .message).isSome
  | _ => false

theorem tagged_reaches_agent : ∃ r, (machine roomyOptions).run initial taggedRun = some r ∧
    ∃ sessionId event contexts, .event sessionId event (some contexts) ∈ r.outputs ∧
      ¬ Clean contexts .message (.object event.parameters) := by
  obtain ⟨r, hrun, hany⟩ := (machine roomyOptions).exists_run_of_any
    (P := fun r => r.outputs.any Output.isForeign = true) (s := initial) (l := taggedRun) (by decide +kernel)
  refine ⟨r, hrun, ?_⟩
  obtain ⟨out, hout, hforeign⟩ := List.any_eq_true.mp hany
  unfold Output.isForeign at hforeign
  split at hforeign
  · rename_i sessionId event contexts
    refine ⟨sessionId, event, contexts, hout, fun hclean => ?_⟩
    rw [foreignObjectHandle_eq_none.mpr hclean] at hforeign
    cases hforeign
  · cases hforeign

end Opensteer.SessionCdpRouter
