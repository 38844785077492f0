import Opensteer.CausalSink.Order

/-!
# Receipts before effects

What a step does to the messages that wait and to those handed over (`Turns`): it sends a message on or
buffers it, hands the first of a barrier over after the receipt of the call it is of, or does neither.
So what is sent while a command of its scope is in effect is handed over after that command's receipt
(`Behind`), and it is lost only where the sink refuses it or drops its scope (`Kept`). Each is kept by
every step, and `receipts_before_effects` takes them together over whole runs.
-/

namespace Opensteer.CausalSink

variable {size : RunnerOperationalReport → Nat} {s s' : Sink} {id n : Nat} {call : Call} {σ : String}
  {sent : Sent} {message : RunnerOperationalReport} {action : Action}

/-- What may drop a message that waits. -/
def Drops (s : Sink) (message : RunnerOperationalReport) : Action → Prop
  | .close => True
  | .applyFails id | .sendFails id => ∃ call, s.calls.get id = some call ∧ Concerns message call.command
  | _ => False

/-- What drops every message of a scope. -/
def DropsScope (s : Sink) (scope : String) (action : Action) : Prop :=
  ∀ message, operationalMessageEffectScope message = some scope → Drops s message action

/-- It is of the scope of a command whose effect, or whose send, fails. -/
theorem concerns_of_scope (hscope : operationalMessageEffectScope message = some σ) (hσ : call.scope = some σ) :
    Concerns message call.command :=
  concerns_iff.mpr ⟨by rw [hscope]; rfl, hscope.trans hσ.symm⟩

/-- What a step does to the messages. -/
inductive Turns (size : RunnerOperationalReport → Nat) (s : Sink) (action : Action) : Sink → Prop
  | sends {s' : Sink} {message : RunnerOperationalReport} (haction : action = .send message)
    (hsends : Sends size s message s') : Turns size s action s'
  | handsOver {id : Nat} {call : Call} {σ : String} {sent : Sent} {messages : List Sent}
    (hcall : s.calls.get id = some call) (hin : call.phase.InEffect) (hne : call.phase ≠ .applying)
    (hσ : call.scope = some σ) (hmessages : (s.barriers id).messages = sent :: messages) :
    Turns size s action (({ s.setBarrier id ⟨(s.barriers id).bytes - size sent.message, messages⟩ with
      bufferedBytes := s.bufferedBytes - size sent.message }.delegate (.report sent)).setPhase id (.releasing id))
  | other {s' : Sink} (hdelegated : ∃ calls, s'.delegated = s.delegated ++ calls ∧ ∀ c ∈ calls, c.report? = none)
    (hmessages : ∀ id, (s'.barriers id).messages = (s.barriers id).messages) (hnextIndex : s'.nextIndex = s.nextIndex)
    (hscopes : ∀ σ id, s.scopes.get σ = some id →
      s'.scopes.get σ = some id ∨ (s.barriers id).messages = [] ∨ DropsScope s σ action) : Turns size s action s'

theorem Turns.same (action : Action) : Turns size s action s :=
  .other ⟨[], (List.append_nil _).symm, fun _ h => (nomatch h)⟩ (fun _ => rfl) rfl fun _ _ h => .inl h

/-- A call goes out of effect, with nothing of it waiting or by an action that drops it. -/
theorem turns_leave (hempty : ∀ σ id, call.scope = some σ → s.scopes.get σ = some id →
    (s.barriers id).messages = [] ∨ DropsScope s σ action) {calls : OrderedMap Nat Call} :
    Turns size s action { s.discardOf call with calls } := by
  obtain ⟨hbarriers, -, -, -, hnextIndex, hdelegated⟩ := discardOf_rest s call
  refine .other ⟨[], hdelegated.trans (List.append_nil _).symm, fun _ h => (nomatch h)⟩ (fun id => ?_) hnextIndex ?_
  · exact congrArg (fun barriers : Nat → BufferedEffectScope => (barriers id).messages) hbarriers
  · intro σ id hσ
    by_cases hscope : call.scope = some σ
    · exact .inr (hempty σ id hscope hσ)
    · exact .inl ((scopes_discardOf s call σ).trans ((if_neg hscope).trans hσ))

theorem Ok.turns_releaseNext (h : Ok size s) (hcall : s.calls.get id = some call) (hin : call.phase.InEffect)
    (hne : call.phase ≠ .applying) (hσ : call.scope = some σ) : Turns size s action (s.releaseNext size id call id) := by
  unfold Sink.releaseNext
  split
  · rename_i hmessages
    refine turns_leave fun τ b hτ hb => .inl ?_
    rw [h.scope_eq hcall hτ hb, hmessages]
  · exact .handsOver hcall hin hne hσ ‹_›

theorem Ok.turns_begin (h : Ok size s) {command : RunnerCommand}
    (hfree : ∀ σ, runnerCommandEffectScope command = some σ → s.scopes.get σ = none) :
    Turns size s action (s.begin command) := by
  obtain ⟨-, -, -, -, hdelegated, hnextIndex, hbarriers⟩ := begin_rest s command
  refine .other ⟨[], hdelegated.trans (List.append_nil _).symm, fun _ h => (nomatch h)⟩ (fun id => ?_) hnextIndex ?_
  · rcases hbarriers id with hid | ⟨rfl, hid⟩
    · rw [hid]
    · rw [hid, h.clean _ le_rfl]
  · intro σ id hσ
    refine .inl ((scopes_begin s command σ).trans ((if_neg fun hscope => ?_).trans hσ))
    cases hσ.symm.trans (hfree σ hscope)

theorem turns_close (s : Sink) : Turns size s .close s.close := by
  unfold Sink.close
  split
  · exact .same _
  · refine .other ⟨[.close], rfl, fun c hc => ?_⟩ (fun _ => rfl) rfl fun _ _ _ => .inr (.inr fun _ _ => trivial)
    rw [List.mem_singleton.mp hc]
    rfl

theorem Ok.turns_sent (h : Ok size s) (hcall : s.calls.get id = some call) (hstep : s.sent size id call = some s') :
    Turns size s action s' := by
  unfold Sink.sent at hstep
  split at hstep
  · rename_i hphase
    obtain rfl := Option.some.inj hstep
    unfold Sink.release
    split
    · exact .other ⟨[], (List.append_nil _).symm, fun _ h => (nomatch h)⟩ (fun _ => rfl) rfl fun _ _ h => .inl h
    · rename_i b hb
      obtain ⟨σ, hσ, hb⟩ := Option.bind_eq_some_iff.mp hb
      obtain rfl := h.scope_eq hcall hσ hb
      exact h.turns_releaseNext hcall (hphase ▸ trivial) (hphase ▸ (nomatch ·)) hσ
  · rename_i b hphase
    obtain rfl := Option.some.inj hstep
    obtain ⟨rfl, hsome⟩ := h.own id call b hcall hphase
    obtain ⟨σ, hσ⟩ := Option.isSome_iff_exists.mp hsome
    exact h.turns_releaseNext hcall (hphase ▸ trivial) (hphase ▸ (nomatch ·)) hσ
  · cases hstep

theorem turns_applyFails (hcall : s.calls.get id = some call) :
    Turns size s (.applyFails id) ((s.discardOf call).settle id) := by
  have hdrops : ∀ σ b, call.scope = some σ → s.scopes.get σ = some b →
      (s.barriers b).messages = [] ∨ DropsScope s σ (.applyFails id) :=
    fun σ b hσ _ => .inr fun message hscope => ⟨call, hcall, concerns_of_scope hscope hσ⟩
  exact turns_leave hdrops

theorem turns_sendFails (hcall : s.calls.get id = some call) (hstep : s.sendFails id call = some s') :
    Turns size s (.sendFails id) s' := by
  have hdrops : ∀ σ b, call.scope = some σ → s.scopes.get σ = some b →
      (s.barriers b).messages = [] ∨ DropsScope s σ (.sendFails id) :=
    fun σ b hσ _ => .inr fun message hscope => ⟨call, hcall, concerns_of_scope hscope hσ⟩
  unfold Sink.sendFails at hstep
  split at hstep
  · exact Option.some.inj hstep ▸ turns_leave hdrops
  · exact Option.some.inj hstep ▸ turns_leave hdrops
  · cases hstep

theorem Ok.turns_settles (h : Ok size s) (hcall : s.calls.get id = some call) (hstep : s.settles id call = some s') :
    Turns size s action s' := by
  unfold Sink.settles at hstep
  split at hstep
  · rename_i failed hphase
    obtain rfl := Option.some.inj hstep
    cases failed with
    | false => exact .other ⟨[], (List.append_nil _).symm, fun _ h => (nomatch h)⟩ (fun _ => rfl) rfl fun _ _ h => .inl h
    | true =>
      refine turns_leave fun σ b hσ hb => ?_
      -- The scope of a call that is out of effect is no longer held.
      obtain rfl := h.scope_eq hcall hσ hb
      obtain ⟨c, hc, -, hin⟩ := h.call_of_scope σ b hb
      obtain rfl := Option.some.inj (hcall.symm.trans hc)
      rw [hphase] at hin
      exact hin.elim
  · cases hstep

theorem Ok.turns (h : Ok size s) (hstep : (machine size).step s action = some s') : Turns size s action s' := by
  cases action with
  | send message => exact .sends rfl (Option.some.inj hstep ▸ sends_send s message)
  | applyCommand command =>
    change (if _ then none else some (s.applyCommand command)) = some s' at hstep
    split at hstep
    · cases hstep
    obtain rfl := Option.some.inj hstep
    unfold Sink.applyCommand
    split
    · exact .same _
    · split
      · rename_i hscope
        exact h.turns_begin fun σ hσ => by cases hscope.symm.trans hσ
      · rename_i σ hscope
        split
        · exact .same _
        · rename_i hnone
          refine h.turns_begin fun τ hτ => ?_
          obtain rfl := Option.some.inj (hscope.symm.trans hτ)
          simpa using hnone
  | decides id decision =>
    obtain ⟨call, hcall, hstep⟩ := Option.bind_eq_some_iff.mp hstep
    split at hstep
    · obtain rfl := Option.some.inj hstep
      refine .other ⟨[_], rfl, fun c hc => ?_⟩ (fun _ => rfl) rfl fun _ _ h => .inl h
      rw [List.mem_singleton.mp hc]
      rfl
    · cases hstep
  | applyFails id =>
    obtain ⟨call, hcall, hstep⟩ := Option.bind_eq_some_iff.mp hstep
    split at hstep
    · exact Option.some.inj hstep ▸ turns_applyFails hcall
    · cases hstep
  | sent id =>
    obtain ⟨call, hcall, hstep⟩ := Option.bind_eq_some_iff.mp hstep
    exact h.turns_sent hcall hstep
  | sendFails id =>
    obtain ⟨call, hcall, hstep⟩ := Option.bind_eq_some_iff.mp hstep
    exact turns_sendFails hcall hstep
  | settles id =>
    obtain ⟨call, hcall, hstep⟩ := Option.bind_eq_some_iff.mp hstep
    exact h.turns_settles hcall hstep
  | close => exact Option.some.inj hstep ▸ turns_close s

/-! ## After the receipt -/

/-- A message is handed over only after the receipt of a call. -/
def Sink.Follows (s : Sink) (index id : Nat) : Prop :=
  ∀ (i : Nat) (sent : Sent), s.delegated[i]? = some (.report sent) → sent.index = index →
    ∃ j < i, ∃ receipt, s.delegated[j]? = some (.receipt id receipt)

/-- A message that waits for the receipt of a call, or is behind it. -/
structure Behind (index id : Nat) (s : Sink) : Prop where
  follows : s.Follows index id
  waits : ∀ j, ∀ sent ∈ (s.barriers j).messages, sent.index = index → j = id
  sent : index < s.nextIndex

theorem Sink.Follows.append (h : s.Follows n id) {calls : List DelegateCall} (hcalls : s'.delegated = s.delegated ++ calls)
    (hnew : ∀ sent, .report sent ∈ calls → sent.index = n → ∃ receipt, .receipt id receipt ∈ s.delegated) :
    s'.Follows n id := by
  intro i sent hi hindex
  rw [hcalls] at hi ⊢
  by_cases hlt : i < s.delegated.length
  · rw [List.getElem?_append_left hlt] at hi
    obtain ⟨j, hj, receipt, hreceipt⟩ := h i sent hi hindex
    exact ⟨j, hj, receipt, by rw [List.getElem?_append_left (hj.trans hlt), hreceipt]⟩
  · rw [not_lt] at hlt
    rw [List.getElem?_append_right hlt] at hi
    obtain ⟨receipt, hreceipt⟩ := hnew sent (List.mem_of_getElem? hi) hindex
    obtain ⟨j, hj, hreceipt⟩ := List.getElem_of_mem hreceipt
    refine ⟨j, hj.trans_le hlt, receipt, ?_⟩
    rw [List.getElem?_append_left hj, List.getElem?_eq_getElem hj, hreceipt]

/-- Nothing is handed over that was not. -/
theorem Sink.Follows.append_of_none (h : s.Follows n id)
    (hcalls : ∃ calls, s'.delegated = s.delegated ++ calls ∧ ∀ c ∈ calls, c.report? = none) : s'.Follows n id := by
  obtain ⟨calls, hcalls, hnone⟩ := hcalls
  exact h.append hcalls fun sent hsent => (nomatch hnone _ hsent)

theorem Behind.sends (h : Behind n id s) (hsends : Sends size s message s') : Behind n id s' := by
  have hlt : n < s.nextIndex + 1 := Nat.lt_succ_of_lt h.sent
  cases hsends with
  | closed => exact ⟨h.follows, h.waits, hlt⟩
  | directly =>
    refine ⟨h.follows.append rfl fun sent hsent hindex => ?_, h.waits, hlt⟩
    obtain rfl := DelegateCall.report.inj (List.mem_singleton.mp hsent)
    exact absurd hindex h.sent.ne'
  | exceeds => exact ⟨h.follows.append_of_none ⟨_, rfl, by simp [DelegateCall.report?]⟩, h.waits, hlt⟩
  | @buffered σ b =>
    refine ⟨h.follows, fun j sent hsent hindex => ?_, hlt⟩
    change sent ∈ (Function.update s.barriers b _ j).messages at hsent
    by_cases hj : j = b
    · subst hj
      rw [Function.update_self] at hsent
      rcases List.mem_append.mp hsent with hsent | hsent
      · exact h.waits j sent hsent hindex
      · obtain rfl := List.mem_singleton.mp hsent
        exact absurd hindex h.sent.ne'
    · rw [Function.update_of_ne hj] at hsent
      exact h.waits j sent hsent hindex

theorem Behind.turns (h : Behind n id s) (hok : Ok size s) (hturns : Turns size s action s') : Behind n id s' := by
  cases hturns with
  | sends _ hsends => exact h.sends hsends
  | @handsOver b call σ sent messages hcall hin hne hσ hmessages =>
    refine ⟨h.follows.append rfl fun x hx hindex => ?_, fun j x hx hindex => ?_, h.sent⟩
    · obtain rfl := DelegateCall.report.inj (List.mem_singleton.mp hx)
      obtain rfl := h.waits b x (hmessages ▸ List.mem_cons_self) hindex
      exact hok.receipted b call hcall hne
    · change x ∈ (Function.update s.barriers b _ j).messages at hx
      by_cases hj : j = b
      · subst hj
        rw [Function.update_self] at hx
        exact h.waits j x (hmessages ▸ List.mem_cons_of_mem _ hx) hindex
      · rw [Function.update_of_ne hj] at hx
        exact h.waits j x hx hindex
  | other hdelegated hmessages hnextIndex hscopes =>
    refine ⟨h.follows.append_of_none hdelegated, fun j sent hsent => h.waits j sent (hmessages j ▸ hsent), ?_⟩
    rw [hnextIndex]
    exact h.sent

/-- A message sent while a command of its scope is in effect. -/
theorem Ok.behind_send (h : Ok size s) (hcall : s.calls.get id = some call) (hin : call.phase.InEffect)
    (hconcerns : Concerns message call.command) : Behind s.nextIndex id (s.send size message) := by
  obtain ⟨hsome, hscope⟩ := concerns_iff.mp hconcerns
  obtain ⟨σ, hσ⟩ := Option.isSome_iff_exists.mp hsome
  have hfollows : s.Follows s.nextIndex id := by
    intro i sent hi hindex
    have hmem : sent ∈ s.handed := List.mem_filterMap.mpr ⟨_, List.mem_of_getElem? hi, rfl⟩
    exact absurd hindex (h.handed_lt sent hmem).ne
  have hwaits : ∀ j, ∀ sent ∈ (s.barriers j).messages, sent.index = s.nextIndex → j = id :=
    fun j sent hsent hindex => absurd hindex (h.buffered_lt j sent hsent).ne
  have hheld (hopen : s.closed = false) : s.scopes.get σ = some id :=
    h.scope_of_call id call σ hopen hcall hin (hscope.symm.trans hσ)
  have hsends := (@sends_send size) s message
  generalize s.send size message = s' at hsends
  cases hsends with
  | closed => exact ⟨hfollows, hwaits, Nat.lt_succ_self _⟩
  | directly hopen hnone =>
    rw [hσ] at hnone
    cases hnone.symm.trans (hheld hopen)
  | exceeds => exact ⟨hfollows.append_of_none ⟨_, rfl, by simp [DelegateCall.report?]⟩, hwaits, Nat.lt_succ_self _⟩
  | @buffered τ b hopen hτ hb =>
    obtain rfl := Option.some.inj (hσ.symm.trans hτ)
    obtain rfl := Option.some.inj (hb.symm.trans (hheld hopen))
    refine ⟨hfollows, fun j sent hsent hindex => ?_, Nat.lt_succ_self _⟩
    change sent ∈ (Function.update s.barriers b _ j).messages at hsent
    by_cases hj : j = b
    · exact hj
    · rw [Function.update_of_ne hj] at hsent
      exact hwaits j sent hsent hindex

/-! ## Nothing is lost -/

/-- A message is handed over, or waits. -/
def Kept (sent : Sent) (s : Sink) : Prop := sent ∈ s.handed ∨ ∃ σ id, operationalMessageEffectScope sent.message = some σ ∧
  s.scopes.get σ = some id ∧ sent ∈ (s.barriers id).messages

theorem handed_append {calls : List DelegateCall} (hcalls : s'.delegated = s.delegated ++ calls) (h : sent ∈ s.handed) :
    sent ∈ s'.handed := by
  rw [Sink.handed, hcalls, List.filterMap_append]
  exact List.mem_append_left _ h

theorem Kept.sends (h : Kept sent s) (hsends : Sends size s message s') : Kept sent s' := by
  cases hsends with
  | closed => exact h
  | directly => exact h.imp_left (handed_append rfl)
  | exceeds => exact h.imp_left (handed_append rfl)
  | @buffered τ b =>
    refine h.imp_right fun ⟨σ, id, hscope, hσ, hmem⟩ => ⟨σ, id, hscope, hσ, ?_⟩
    change sent ∈ (Function.update s.barriers b _ id).messages
    by_cases hid : id = b
    · subst hid
      rw [Function.update_self]
      exact List.mem_append_left _ hmem
    · rw [Function.update_of_ne hid]
      exact hmem

theorem Kept.turns (h : Kept sent s) (hturns : Turns size s action s')
    (hdrops : ¬Drops s sent.message action) : Kept sent s' := by
  cases hturns with
  | sends _ hsends => exact h.sends hsends
  | @handsOver b call τ first messages hcall hin hne hτ hmessages =>
    rcases h with h | ⟨σ, id, hscope, hσ, hmem⟩
    · exact .inl (handed_append rfl h)
    by_cases hid : id = b
    · subst hid
      rcases List.mem_cons.mp (hmessages ▸ hmem) with rfl | hmem
      · exact .inl (List.mem_filterMap.mpr ⟨_, List.mem_append_right _ (List.mem_singleton_self _), rfl⟩)
      · refine .inr ⟨σ, id, hscope, hσ, ?_⟩
        change sent ∈ (Function.update s.barriers id _ id).messages
        rw [Function.update_self]
        exact hmem
    · refine .inr ⟨σ, id, hscope, hσ, ?_⟩
      change sent ∈ (Function.update s.barriers b _ id).messages
      rw [Function.update_of_ne hid]
      exact hmem
  | other hdelegated hmessages hnextIndex hscopes =>
    rcases h with h | ⟨σ, id, hscope, hσ, hmem⟩
    · obtain ⟨calls, hcalls, -⟩ := hdelegated
      exact .inl (handed_append hcalls h)
    · refine .inr ⟨σ, id, hscope, ?_, hmessages id ▸ hmem⟩
      refine (hscopes σ id hσ).resolve_right fun hlost => ?_
      rcases hlost with hnil | hlost
      · rw [hnil] at hmem
        cases hmem
      · exact hdrops (hlost _ hscope)

/-- A message that an open sink has room for. -/
theorem Ok.kept_send (h : Ok size s) (hopen : s.closed = false)
    (hroom : ∀ id call, s.calls.get id = some call → call.phase.InEffect → Concerns message call.command →
      s.bufferedBytes + size message ≤ maximumBufferedOutboundBytes) : Kept (s.next message) (s.send size message) := by
  have hsends := (@sends_send size) s message
  generalize s.send size message = s' at hsends
  cases hsends with
  | closed hclosed => cases hopen.symm.trans hclosed
  | directly => exact .inl (List.mem_filterMap.mpr ⟨_, List.mem_append_right _ (List.mem_singleton_self _), rfl⟩)
  | exceeds _ hscope hσ hbytes =>
    obtain ⟨call, hcall, hcσ, hin⟩ := h.call_of_scope _ _ hσ
    exact absurd (hroom _ call hcall hin (concerns_of_scope hscope hcσ)) (not_le.mpr hbytes)
  | @buffered τ b _ hscope hσ =>
    refine .inr ⟨τ, b, hscope, hσ, ?_⟩
    change _ ∈ (Function.update s.barriers b _ b).messages
    rw [Function.update_self]
    exact List.mem_append_right _ (List.mem_singleton_self _)

theorem Kept.buffered (h : Kept sent s) : sent ∈ s.handed ∨ sent ∈ s.buffered := by
  refine h.imp_right fun ⟨σ, id, _, hσ, hmem⟩ => ?_
  exact List.mem_flatMap.mpr ⟨id, OrderedMap.mem_values.mpr ⟨σ, hσ⟩, hmem⟩

/-! ## Whole runs -/

/-- What waits is of a command in effect. -/
theorem Ok.concerns_of_buffered (h : Ok size s) (hsent : sent ∈ s.buffered) :
    ∃ id call, s.calls.get id = some call ∧ call.phase.InEffect ∧ Concerns sent.message call.command := by
  obtain ⟨id, hid, hmem⟩ := List.mem_flatMap.mp hsent
  obtain ⟨σ, hσ⟩ := OrderedMap.mem_values.mp hid
  obtain ⟨call, hcall, hcσ, hin⟩ := h.call_of_scope σ id hσ
  exact ⟨id, call, hcall, hin, concerns_of_scope ((h.within id call hcall sent hmem).trans hcσ) hcσ⟩

theorem Ok.bufferedBytes_eq (h : Ok size s) (hopen : s.closed = false) :
    s.bufferedBytes = (s.buffered.map fun sent => (size sent.message : Int)).sum := by
  rw [h.total hopen, Sink.buffered, List.map_flatMap, List.flatMap_def, List.sum_flatten, List.map_map]
  exact congrArg List.sum (List.map_congr_left fun id _ => h.bytes id)

/-- A message that no command in effect is for is handed over at once. -/
theorem Ok.delegated_send (h : Ok size s) (hopen : s.closed = false)
    (hconcerns : ∀ id call, s.calls.get id = some call → call.phase.InEffect → ¬Concerns message call.command) :
    (s.send size message).delegated = s.delegated ++ [DelegateCall.report (s.next message)] := by
  have hsends := (@sends_send size) s message
  generalize s.send size message = s' at hsends
  have hheld {σ : String} {id : Nat} (hscope : operationalMessageEffectScope message = some σ) :
      s.scopes.get σ ≠ some id := by
    intro hσ
    obtain ⟨call, hcall, hcσ, hin⟩ := h.call_of_scope σ id hσ
    exact hconcerns id call hcall hin (concerns_of_scope hscope hcσ)
  cases hsends with
  | closed hclosed => cases hopen.symm.trans hclosed
  | directly => rfl
  | exceeds _ hscope hσ => exact (hheld hscope hσ).elim
  | buffered _ hscope hσ => exact (hheld hscope hσ).elim

theorem Behind.run (h : Behind n id s) (hok : Ok size s) {as : List Action} (hrun : (machine size).run s as = some s') :
    Behind n id s' :=
  ((machine size).invariant (P := fun s => Ok size s ∧ Behind n id s) ⟨hok, h⟩
    (fun _ _ _ h hstep => ⟨h.1.step hstep, h.2.turns h.1 (h.1.turns hstep)⟩) hrun).2

theorem Kept.run (h : Kept sent s) (hok : Ok size s) {as : List Action} (hrun : (machine size).run s as = some s')
    (hdrops : (machine size).Meets (fun t a => ¬Drops t sent.message a) s as) : Kept sent s' :=
  ((machine size).run_invariant (P := fun s => Ok size s ∧ Kept sent s) ⟨hok, h⟩
    (fun _ _ _ h hdrops hstep => ⟨h.1.step hstep, h.2.turns (h.1.turns hstep) hdrops⟩) hdrops hrun).2

/-- In every run: what is handed over of a scope is in the order it was sent, none twice; the bytes
counted are those of the messages that wait, and each waits for a command in effect. What is sent while a
command it concerns is in effect is handed over only after that command's receipt, what concerns none
at once; and what an open sink has room for is handed over or waits, if no step after drops it. -/
theorem receipts_before_effects (size : RunnerOperationalReport → Nat) {as : List Action} {s : Sink}
    (hrun : (machine size).run initial as = some s) :
    (∀ σ, Ascends (s.handed.filter (·.isOf σ))) ∧
    (s.closed = false → s.bufferedBytes = (s.buffered.map fun sent => (size sent.message : Int)).sum) ∧
    (∀ sent ∈ s.buffered, ∃ id call, s.calls.get id = some call ∧ call.phase.InEffect ∧
      Concerns sent.message call.command) ∧
    ∀ (before : List Action) r message after, as = before ++ Action.send message :: after → (machine size).run initial before = some r →
      (∀ id call, r.calls.get id = some call → call.phase.InEffect → Concerns message call.command →
        s.Follows r.nextIndex id) ∧
      (r.closed = false →
        (∀ id call, r.calls.get id = some call → call.phase.InEffect → ¬Concerns message call.command) →
          (r.send size message).delegated = r.delegated ++ [DelegateCall.report (r.next message)]) ∧
      (r.closed = false →
        (∀ id call, r.calls.get id = some call → call.phase.InEffect → Concerns message call.command →
          r.bufferedBytes + size message ≤ maximumBufferedOutboundBytes) →
        (machine size).Meets (fun t a => ¬Drops t message a) (r.send size message) after →
          r.next message ∈ s.handed ∨ r.next message ∈ s.buffered) := by
  have hok := ok_run hrun
  refine ⟨hok.sequenced, hok.bufferedBytes_eq, fun sent hsent => hok.concerns_of_buffered hsent, ?_⟩
  rintro before r message after rfl hbefore
  have hr := ok_run hbefore
  have hafter : (machine size).run (r.send size message) after = some s := by
    obtain ⟨t, ht, hrest⟩ := ((machine size).run_append_eq_some).mp hrun
    obtain rfl := Option.some.inj (hbefore.symm.trans ht)
    obtain ⟨u, hu, hrest⟩ := ((machine size).run_cons_eq_some).mp hrest
    exact Option.some.inj hu ▸ hrest
  refine ⟨fun id call hcall hin hconcerns => ?_, hr.delegated_send, fun hopen hroom hdrops => ?_⟩
  · exact ((hr.behind_send hcall hin hconcerns).run (hr.send message) hafter).follows
  · exact ((hr.kept_send hopen hroom).run (hr.send message) hafter hdrops).buffered

/-- A steer that injects a message of its Run and waits for another before it is accepted, while a
message of another Run is sent. -/
def steered : List Action :=
  [.applyCommand ⟨⟨"steer"⟩, "1", .runSteer ⟨"run"⟩⟩, .send (.event ⟨"run"⟩ "message.injected"),
    .send (.event ⟨"another"⟩ "turn.started"), .decides 0 (.accepted none), .send (.live ⟨"run"⟩ "delta"), .sent 0,
    .sent 0, .sent 0, .settles 0]

theorem receipts_before_effects_steered : ∃ s, (machine fun _ => 100).run initial steered = some s ∧
    s.handed.map Sent.index = [1, 0, 2] ∧ s.Follows 0 0 ∧ s.bufferedBytes = 0 ∧
      Ascends (s.handed.filter (·.isOf "run:run")) := by
  obtain ⟨s, hrun, hhanded, hopen, hbuffered⟩ := (machine fun _ => 100).exists_run_of_any (s := initial) (l := steered)
    (P := fun s => s.handed.map Sent.index = [1, 0, 2] ∧ s.closed = false ∧ s.buffered = []) (by decide +kernel)
  obtain ⟨hordered, hbytes, -, hsent⟩ := receipts_before_effects (fun _ => 100) hrun
  obtain ⟨hfollows, -⟩ := hsent [.applyCommand ⟨⟨"steer"⟩, "1", .runSteer ⟨"run"⟩⟩] _ (.event ⟨"run"⟩ "message.injected")
    (steered.drop 2) rfl rfl
  refine ⟨s, hrun, hhanded, hfollows 0 _ rfl trivial ⟨rfl, rfl⟩, ?_, hordered _⟩
  rw [hbytes hopen, hbuffered]
  rfl

end Opensteer.CausalSink
