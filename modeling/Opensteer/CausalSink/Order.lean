import Mathlib.Algebra.Order.Ring.Int
import Mathlib.Algebra.Order.BigOperators.Group.List
import Mathlib.Algebra.Order.Group.Int
import Opensteer.CausalSink.Model

/-!
# Order in the sink

While the sink is open, the scopes it holds messages of are those of the commands that are being
applied or whose messages are being released, and a command's barrier holds what was sent after all
that was handed over of its scope (`Ok`, kept by every step, and so of every run: `ok_run`).
-/

namespace Opensteer.CausalSink

variable {size : RunnerOperationalReport → Nat} {s s' : Sink} {id b : Nat} {call : Call} {σ τ : String}
  {sent : Sent} {message : RunnerOperationalReport}

/-! ## What a message and a command are about -/

inductive Subject
  | run (runId : RunId)
  | occurrence (occurrenceId : TriggerOccurrenceId)
deriving DecidableEq, Repr

/-- The Run or the Trigger occurrence that a report is of. -/
def RunnerOperationalReport.subject : RunnerOperationalReport → Option Subject
  | .event runId _ | .live runId _ | .sessionBound runId _ => some (.run runId)
  | .triggerResult occurrenceId _ => some (.occurrence occurrenceId)
  | .watchStatus _ _ | .other _ _ => none

/-- The Run or the Trigger occurrence that a command is for. -/
def CommandType.subject : CommandType → Option Subject
  | .runExecute runId | .requestResolve runId | .runInterrupt runId | .runSteer runId
  | .workspaceMount runId => some (.run runId)
  | .triggerExecute occurrenceId | .triggerInterrupt occurrenceId => some (.occurrence occurrenceId)
  | .watchReconcile _ | .workspaceDetach | .harnessUpdate _ _ => none

/-- A report is of the Run or of the Trigger occurrence that a command is for. -/
def Concerns (message : RunnerOperationalReport) (command : RunnerCommand) : Prop :=
  message.subject.isSome ∧ message.subject = command.type.subject

def Subject.effectScope : Subject → String
  | .run runId => "run:" ++ runId.value
  | .occurrence occurrenceId => "trigger:" ++ occurrenceId.value

theorem tagged_inj (tag : String) {x y : String} : tag ++ x = tag ++ y ↔ x = y := by
  refine ⟨fun h => ?_, fun h => h ▸ rfl⟩
  have := congrArg String.toList h
  simp only [String.toList_append, List.append_cancel_left_eq] at this
  exact String.toList_inj.mp this

/-- Texts that start apart. -/
theorem tagged_ne {tag tag' : String} (h : ∀ x y, tag.toList ++ x ≠ tag'.toList ++ y) (x y : String) :
    tag ++ x ≠ tag' ++ y := by
  intro heq
  have := congrArg String.toList heq
  rw [String.toList_append, String.toList_append] at this
  exact h _ _ this

theorem Subject.effectScope_inj {x y : Subject} : x.effectScope = y.effectScope ↔ x = y := by
  cases x with
  | run a =>
    cases y with
    | run b => rw [effectScope, effectScope, tagged_inj, Subject.run.injEq, RunId.mk.injEq]
    | occurrence b => exact iff_of_false (tagged_ne (by simp) _ _) (nomatch ·)
  | occurrence a =>
    cases y with
    | run b => exact iff_of_false (tagged_ne (by simp) _ _) (nomatch ·)
    | occurrence b => rw [effectScope, effectScope, tagged_inj, Subject.occurrence.injEq, TriggerOccurrenceId.mk.injEq]

theorem scope_of_subject {x : Subject} (h : message.subject = some x) :
    operationalMessageEffectScope message = some x.effectScope := by
  cases message with
  | event | live | sessionBound | triggerResult => exact congrArg (Option.map Subject.effectScope) h
  | watchStatus | other => cases h

theorem commandScope_of_subject {command : RunnerCommand} {x : Subject} (h : command.type.subject = some x) :
    runnerCommandEffectScope command = some x.effectScope := by
  obtain ⟨commandId, correlationId, type⟩ := command
  cases type with
  | watchReconcile | workspaceDetach | harnessUpdate => cases h
  | _ => exact congrArg (Option.map Subject.effectScope) h

theorem commandScope_ne {command : RunnerCommand} (h : command.type.subject = none) (x : Subject) :
    runnerCommandEffectScope command ≠ some x.effectScope := by
  obtain ⟨commandId, correlationId, type⟩ := command
  cases type with
  | workspaceDetach => exact (nomatch ·)
  | watchReconcile environmentId =>
    cases x with
    | run runId => exact fun h => tagged_ne (by simp) _ _ (Option.some.inj h)
    | occurrence occurrenceId => exact fun h => tagged_ne (by simp) _ _ (Option.some.inj h)
  | harnessUpdate environmentId driverKind =>
    simp only [runnerCommandEffectScope, String.append_assoc]
    cases x with
    | run runId => exact fun h => tagged_ne (by simp) _ _ (Option.some.inj h)
    | occurrence occurrenceId => exact fun h => tagged_ne (by simp) _ _ (Option.some.inj h)
  | _ => cases h

/-- The scope of a Watch's status is no command's. -/
theorem watchScope_ne (activationId : String) (command : RunnerCommand) :
    runnerCommandEffectScope command ≠ some ("watch:" ++ activationId) := by
  obtain ⟨commandId, correlationId, type⟩ := command
  cases type with
  | workspaceDetach => exact (nomatch ·)
  | harnessUpdate environmentId driverKind =>
    simp only [runnerCommandEffectScope, String.append_assoc]
    exact fun h => tagged_ne (by simp) _ _ (Option.some.inj h)
  | _ => exact fun h => tagged_ne (by simp) _ _ (Option.some.inj h)

/-- A message has the scope of a command if and only if the command is for what it is of. -/
theorem concerns_iff {command : RunnerCommand} : Concerns message command ↔
    (operationalMessageEffectScope message).isSome ∧
      operationalMessageEffectScope message = runnerCommandEffectScope command := by
  cases hmessage : message.subject with
  | some x =>
    rw [scope_of_subject hmessage, Concerns, hmessage]
    refine and_congr_right fun _ => ?_
    cases hcommand : command.type.subject with
    | none => exact iff_of_false (nomatch ·) fun h => commandScope_ne hcommand x h.symm
    | some y => rw [commandScope_of_subject hcommand, Option.some.injEq, Option.some.injEq, Subject.effectScope_inj]
  | none =>
    refine iff_of_false (fun h => by rw [Concerns, hmessage] at h; cases h.1) fun ⟨hsome, heq⟩ => ?_
    cases message with
    | watchStatus activationId body => exact watchScope_ne activationId command heq.symm
    | other => cases hsome
    | _ => cases hmessage

/-! ## What is handed over -/

def DelegateCall.report? : DelegateCall → Option Sent
  | .report sent => some sent
  | _ => none

/-- The messages handed over, in order. -/
def Sink.handed (s : Sink) : List Sent := s.delegated.filterMap DelegateCall.report?

/-- A message is of a scope. -/
def Sent.isOf (sent : Sent) (scope : String) : Bool := operationalMessageEffectScope sent.message = some scope

/-- The messages buffered, of the scopes that the sink holds messages of. -/
def Sink.buffered (s : Sink) : List Sent := s.scopes.values.flatMap fun barrier => (s.barriers barrier).messages

/-- The command is being applied, its receipt is being sent or its messages are being released. -/
def Phase.InEffect : Phase → Prop
  | .settling _ => False
  | _ => True

/-- Messages in the order they were sent, none twice. -/
def Ascends (messages : List Sent) : Prop := messages.Pairwise fun x y => x.index < y.index

/-- What holds of a sink in every run. -/
structure Ok (size : RunnerOperationalReport → Nat) (s : Sink) : Prop where
  call_of_scope : ∀ σ id, s.scopes.get σ = some id →
    ∃ call, s.calls.get id = some call ∧ call.scope = some σ ∧ call.phase.InEffect
  scope_of_call : ∀ id call σ, s.closed = false → s.calls.get id = some call → call.phase.InEffect →
    call.scope = some σ → s.scopes.get σ = some id
  alone : ∀ i j c d σ, s.calls.get i = some c → s.calls.get j = some d → c.scope = some σ → d.scope = some σ → i = j
  own : ∀ id call b, s.calls.get id = some call → call.phase = .releasing b → b = id ∧ call.scope.isSome
  fresh : ∀ id, s.nextCall ≤ id → s.calls.get id = none
  clean : ∀ id, s.nextCall ≤ id → (s.barriers id).messages = []
  bytes : ∀ id, (s.barriers id).bytes = ((s.barriers id).messages.map fun sent => (size sent.message : Int)).sum
  total : s.closed = false → s.bufferedBytes = (s.scopes.values.map fun id => (s.barriers id).bytes).sum
  within : ∀ id call, s.calls.get id = some call → ∀ sent ∈ (s.barriers id).messages,
    operationalMessageEffectScope sent.message = call.scope
  ordered : ∀ id call σ, s.calls.get id = some call → call.phase.InEffect → call.scope = some σ →
    Ascends (s.handed.filter (·.isOf σ) ++ (s.barriers id).messages)
  sequenced : ∀ σ, Ascends (s.handed.filter (·.isOf σ))
  handed_lt : ∀ sent ∈ s.handed, sent.index < s.nextIndex
  buffered_lt : ∀ id, ∀ sent ∈ (s.barriers id).messages, sent.index < s.nextIndex
  receipted : ∀ id call, s.calls.get id = some call → call.phase ≠ .applying →
    ∃ receipt, .receipt id receipt ∈ s.delegated

theorem Ok.initial : Ok size initial where
  call_of_scope _ _ h := (nomatch h)
  scope_of_call _ _ _ _ h := (nomatch h)
  alone _ _ _ _ _ h := (nomatch h)
  own _ _ _ h := (nomatch h)
  fresh _ _ := rfl
  clean _ _ := rfl
  bytes _ := rfl
  total _ := rfl
  within _ _ h := (nomatch h)
  ordered _ _ _ h := (nomatch h)
  sequenced _ := .nil
  handed_lt _ h := (nomatch h)
  buffered_lt _ _ h := (nomatch h)
  receipted _ _ h := (nomatch h)

/-- A call that there is was begun. -/
theorem Ok.ne_of_call (h : Ok size s) (hcall : s.calls.get id = some call) {j : Nat} (hj : s.nextCall ≤ j) : j ≠ id := by
  rintro rfl
  cases hcall.symm.trans (h.fresh j hj)

/-- What the delegate is called for beside a message. -/
theorem Ok.delegate (h : Ok size s) {c : DelegateCall} (hc : c.report? = none) : Ok size (s.delegate c) := by
  have hhanded : (s.delegate c).handed = s.handed := by
    simp [Sink.handed, Sink.delegate, hc]
  exact {
    h with
    ordered := hhanded ▸ h.ordered
    sequenced := hhanded ▸ h.sequenced
    handed_lt := hhanded ▸ h.handed_lt
    receipted := fun id call hcall hphase => by
      obtain ⟨receipt, hreceipt⟩ := h.receipted id call hcall hphase
      exact ⟨receipt, List.mem_append_left _ hreceipt⟩ }

/-! ## The end of a command -/

theorem scopes_discardOf (s : Sink) (call : Call) (τ : String) :
    (s.discardOf call).scopes.get τ = if call.scope = some τ then none else s.scopes.get τ := by
  unfold Sink.discardOf
  split
  · rename_i hscope
    rw [hscope, if_neg fun h => by cases h]
  · rename_i σ hscope
    rw [hscope, Sink.discard]
    by_cases heq : σ = τ
    · subst heq
      rw [if_pos rfl]
      split
      · assumption
      · exact (OrderedMap.get_delete _).trans (if_pos rfl)
    · rw [if_neg fun h => heq (Option.some.inj h)]
      split
      · rfl
      · exact (OrderedMap.get_delete _).trans (if_neg heq)

/-- Beside the scope of the call and its bytes nothing changes. -/
theorem discardOf_rest (s : Sink) (call : Call) : (s.discardOf call).barriers = s.barriers ∧
    (s.discardOf call).closed = s.closed ∧ (s.discardOf call).calls = s.calls ∧
      (s.discardOf call).nextCall = s.nextCall ∧ (s.discardOf call).nextIndex = s.nextIndex ∧
        (s.discardOf call).delegated = s.delegated := by
  unfold Sink.discardOf Sink.discard
  split
  · exact ⟨rfl, rfl, rfl, rfl, rfl, rfl⟩
  · split <;> exact ⟨rfl, rfl, rfl, rfl, rfl, rfl⟩

theorem discardOf_total (h : s.bufferedBytes = (s.scopes.values.map fun id => (s.barriers id).bytes).sum) (call : Call) :
    (s.discardOf call).bufferedBytes = ((s.discardOf call).scopes.values.map fun id => (s.barriers id).bytes).sum := by
  unfold Sink.discardOf
  split
  · exact h
  · rename_i σ hscope
    unfold Sink.discard
    split
    · exact h
    · rename_i b hb
      have hperm := (OrderedMap.values_perm_delete hb).map fun id => (s.barriers id).bytes
      rw [List.map_cons] at hperm
      rw [h, hperm.sum_eq, List.sum_cons]
      exact add_sub_cancel_left _ _

/-- A call goes out of effect, or is over. -/
theorem Ok.leave (h : Ok size s) (hcall : s.calls.get id = some call) {calls : OrderedMap Nat Call} {ended : Option Call}
    (hcalls : ∀ j, calls.get j = if id = j then ended else s.calls.get j)
    (hended : ∀ c ∈ ended, c.scope = call.scope ∧ ¬c.phase.InEffect ∧ ∃ receipt, .receipt id receipt ∈ s.delegated) :
    Ok size { s.discardOf call with calls } := by
  obtain ⟨hbarriers, hclosed, -, hnextCall, hnextIndex, hdelegated⟩ := discardOf_rest s call
  have hhanded : Sink.handed { s.discardOf call with calls } = s.handed :=
    congrArg (List.filterMap DelegateCall.report?) hdelegated
  -- A call after is one before, or the one that goes out of effect.
  have hback : ∀ j c, calls.get j = some c → id ≠ j ∧ s.calls.get j = some c ∨
      id = j ∧ c.scope = call.scope ∧ ¬c.phase.InEffect ∧ ∃ receipt, .receipt id receipt ∈ s.delegated := by
    intro j c hc
    rw [hcalls] at hc
    split at hc
    · rename_i heq
      exact .inr ⟨heq, hended c hc⟩
    · rename_i hne
      exact .inl ⟨hne, hc⟩
  have hscope : ∀ j c, calls.get j = some c → ∃ d, s.calls.get j = some d ∧ c.scope = d.scope := by
    intro j c hc
    rcases hback j c hc with ⟨-, hc⟩ | ⟨rfl, hc, -⟩
    · exact ⟨c, hc, rfl⟩
    · exact ⟨call, hcall, hc⟩
  have heffect : ∀ j c, calls.get j = some c → c.phase.InEffect → id ≠ j ∧ s.calls.get j = some c := by
    intro j c hc hin
    rcases hback j c hc with hc | ⟨-, -, hout, -⟩
    · exact hc
    · exact (hout hin).elim
  refine ⟨?_, ?_, ?_, ?_, ?_, ?_, ?_, ?_, ?_, ?_, ?_, ?_, ?_, ?_⟩
  · intro σ j hσ
    rw [scopes_discardOf] at hσ
    split at hσ
    · cases hσ
    · rename_i hne
      obtain ⟨c, hc, hcσ, hin⟩ := h.call_of_scope σ j hσ
      have hij : id ≠ j := by
        rintro rfl
        obtain rfl := Option.some.inj (hcall.symm.trans hc)
        exact hne hcσ
      exact ⟨c, (hcalls j).trans ((if_neg hij).trans hc), hcσ, hin⟩
  · intro j c σ hopen hc hin hcσ
    obtain ⟨hij, hc⟩ := heffect j c hc hin
    rw [scopes_discardOf, if_neg fun hσ => hij (h.alone id j call c σ hcall hc hσ hcσ)]
    exact h.scope_of_call j c σ (hclosed ▸ hopen) hc hin hcσ
  · intro i j c d σ hc hd hcσ hdσ
    obtain ⟨c', hc', hcc⟩ := hscope i c hc
    obtain ⟨d', hd', hdd⟩ := hscope j d hd
    exact h.alone i j c' d' σ hc' hd' (hcc ▸ hcσ) (hdd ▸ hdσ)
  · intro j c b hc hphase
    obtain ⟨-, hc⟩ := heffect j c hc (hphase ▸ trivial)
    exact h.own j c b hc hphase
  · intro j hj
    have hid : id ≠ j := by
      rintro rfl
      rw [h.fresh id (hnextCall ▸ hj)] at hcall
      cases hcall
    rw [hcalls, if_neg hid]
    exact h.fresh j (hnextCall ▸ hj)
  · rw [hbarriers, hnextCall]
    exact h.clean
  · rw [hbarriers]
    exact h.bytes
  · intro hopen
    rw [hbarriers]
    exact discardOf_total (h.total (hclosed ▸ hopen)) call
  · intro j c hc sent hsent
    obtain ⟨d, hd, hcd⟩ := hscope j c hc
    rw [hcd]
    exact h.within j d hd sent (hbarriers ▸ hsent)
  · intro j c σ hc hin hcσ
    obtain ⟨-, hc⟩ := heffect j c hc hin
    rw [hhanded, hbarriers]
    exact h.ordered j c σ hc hin hcσ
  · rw [hhanded]
    exact h.sequenced
  · rw [hhanded, hnextIndex]
    exact h.handed_lt
  · rw [hbarriers, hnextIndex]
    exact h.buffered_lt
  · intro j c hc hphase
    rw [hdelegated]
    rcases hback j c hc with ⟨-, hc⟩ | ⟨rfl, -, -, hreceipt⟩
    · exact h.receipted j c hc hphase
    · exact hreceipt

/-! ## Steps of a command -/

/-- A call in effect goes on. -/
theorem Ok.setPhase (h : Ok size s) (hcall : s.calls.get id = some call) (hin : call.phase.InEffect) {phase : Phase}
    (hphase : phase.InEffect) (hown : ∀ b, phase = .releasing b → b = id ∧ call.scope.isSome)
    (hreceipt : ∃ receipt, .receipt id receipt ∈ s.delegated) : Ok size (s.setPhase id phase) := by
  have hget : ∀ j c, (s.setPhase id phase).calls.get j = some c →
      s.calls.get j = some c ∨ id = j ∧ c = { call with phase } := by
    intro j c hc
    change (s.calls.modify id _).get j = some c at hc
    rw [OrderedMap.get_modify, hcall] at hc
    split at hc
    · exact .inr ⟨‹_›, (Option.some.inj hc).symm⟩
    · exact .inl hc
  have hback : ∀ j c, (s.setPhase id phase).calls.get j = some c →
      ∃ d, s.calls.get j = some d ∧ c.scope = d.scope ∧ (c.phase.InEffect → d.phase.InEffect) := by
    intro j c hc
    rcases hget j c hc with hc | ⟨rfl, rfl⟩
    · exact ⟨c, hc, rfl, fun h => h⟩
    · exact ⟨call, hcall, rfl, fun _ => hin⟩
  refine ⟨?_, ?_, ?_, ?_, ?_, h.clean, h.bytes, h.total, ?_, ?_, h.sequenced, h.handed_lt, h.buffered_lt, ?_⟩
  · intro σ j hσ
    obtain ⟨c, hc, hcσ, hin⟩ := h.call_of_scope σ j hσ
    change ∃ c, (s.calls.modify id _).get j = some c ∧ _
    rw [OrderedMap.get_modify, hcall]
    split
    · rename_i heq
      subst heq
      obtain rfl := Option.some.inj (hcall.symm.trans hc)
      exact ⟨_, rfl, hcσ, hphase⟩
    · exact ⟨c, hc, hcσ, hin⟩
  · intro j c σ hopen hc hin hcσ
    obtain ⟨d, hd, hscope, heffect⟩ := hback j c hc
    exact h.scope_of_call j d σ hopen hd (heffect hin) (hscope ▸ hcσ)
  · intro i j c d σ hc hd hcσ hdσ
    obtain ⟨c', hc', hcc, -⟩ := hback i c hc
    obtain ⟨d', hd', hdd, -⟩ := hback j d hd
    exact h.alone i j c' d' σ hc' hd' (hcc ▸ hcσ) (hdd ▸ hdσ)
  · intro j c b hc hb
    rcases hget j c hc with hc | ⟨rfl, rfl⟩
    · exact h.own j c b hc hb
    · exact hown b hb
  · intro j hj
    have hnone := h.fresh j hj
    change (s.calls.modify id _).get j = none
    rw [OrderedMap.get_modify, hcall]
    split
    · rename_i heq
      rw [← heq, hcall] at hnone
      cases hnone
    · exact hnone
  · intro j c hc sent hsent
    obtain ⟨d, hd, hscope, -⟩ := hback j c hc
    rw [hscope]
    exact h.within j d hd sent hsent
  · intro j c σ hc hin hcσ
    obtain ⟨d, hd, hscope, heffect⟩ := hback j c hc
    exact h.ordered j d σ hd (heffect hin) (hscope ▸ hcσ)
  · intro j c hc hne
    rcases hget j c hc with hc | ⟨rfl, rfl⟩
    · exact h.receipted j c hc hne
    · exact hreceipt

theorem Ok.decides (h : Ok size s) (hcall : s.calls.get id = some call) (hphase : call.phase = .applying)
    (decision : CommandDecision) : Ok size (s.decides id call decision) :=
  (h.delegate (c := .receipt id (receiptFor call.command decision)) rfl).setPhase hcall (hphase ▸ trivial) trivial
    (fun _ h => (nomatch h)) ⟨_, List.mem_append_right _ (List.mem_singleton_self _)⟩

/-! ## Handing over -/

theorem isOf_iff : sent.isOf σ = true ↔ operationalMessageEffectScope sent.message = some σ := decide_eq_true_iff

/-- What is handed over of a scope after another message is. -/
theorem filter_handed_report (s : Sink) (sent : Sent) (σ : String) :
    (s.delegate (.report sent)).handed.filter (·.isOf σ) =
      s.handed.filter (·.isOf σ) ++ if sent.isOf σ then [sent] else [] := by
  have hhanded : (s.delegate (.report sent)).handed = s.handed ++ [sent] := by
    simp [Sink.handed, Sink.delegate, DelegateCall.report?]
  rw [hhanded, List.filter_append, List.filter_singleton]
  cases sent.isOf σ <;> rfl

theorem handed_report (s : Sink) (sent : Sent) : (s.delegate (.report sent)).handed = s.handed ++ [sent] := by
  simp [Sink.handed, Sink.delegate, DelegateCall.report?]

/-- A barrier of a scope that the sink holds messages of changes. -/
theorem Ok.total_update (h : Ok size s) (hσ : s.scopes.get σ = some id) (b : BufferedEffectScope) :
    (s.scopes.values.map fun j => (Function.update s.barriers id b j).bytes).sum =
      (s.scopes.values.map fun j => (s.barriers j).bytes).sum - (s.barriers id).bytes + b.bytes := by
  have hperm := OrderedMap.values_perm_delete hσ
  have hrest : ∀ j ∈ (s.scopes.delete σ).values, j ≠ id := by
    rintro j hj rfl
    obtain ⟨τ, hτ⟩ := OrderedMap.mem_values.mp hj
    rw [OrderedMap.get_delete] at hτ
    split at hτ
    · cases hτ
    · rename_i hne
      obtain ⟨c, hc, hcσ, -⟩ := h.call_of_scope σ j hσ
      obtain ⟨d, hd, hdτ, -⟩ := h.call_of_scope τ j hτ
      obtain rfl := Option.some.inj (hc.symm.trans hd)
      exact hne (Option.some.inj (hcσ.symm.trans hdτ))
  have hsame : ((s.scopes.delete σ).values.map fun j => (Function.update s.barriers id b j).bytes) =
      (s.scopes.delete σ).values.map fun j => (s.barriers j).bytes :=
    List.map_congr_left fun j hj => by rw [Function.update_of_ne (hrest j hj)]
  have hnew := (hperm.map fun j => (Function.update s.barriers id b j).bytes).sum_eq
  have hold := (hperm.map fun j => (s.barriers j).bytes).sum_eq
  rw [List.map_cons, List.sum_cons] at hnew hold
  rw [hnew, hold, hsame, Function.update_self]
  omega

/-- The first message of a barrier in effect is handed over. -/
theorem Ok.handOver (h : Ok size s) (hcall : s.calls.get id = some call) (hin : call.phase.InEffect)
    (hσ : call.scope = some σ) {messages : List Sent} (hmessages : (s.barriers id).messages = sent :: messages) :
    Ok size ({ s.setBarrier id ⟨(s.barriers id).bytes - size sent.message, messages⟩ with
      bufferedBytes := s.bufferedBytes - size sent.message }.delegate (.report sent)) := by
  have hbytes := h.bytes id
  rw [hmessages, List.map_cons, List.sum_cons] at hbytes
  have hisOf : ∀ τ, sent.isOf τ = true ↔ τ = σ := by
    intro τ
    rw [isOf_iff, h.within id call hcall sent (hmessages ▸ List.mem_cons_self), hσ, Option.some.injEq]
    exact eq_comm
  have hfilter : ∀ τ, List.filter (·.isOf τ) (Sink.handed ({ s.setBarrier id
      ⟨(s.barriers id).bytes - size sent.message, messages⟩ with
        bufferedBytes := s.bufferedBytes - size sent.message }.delegate (.report sent))) =
      s.handed.filter (·.isOf τ) ++ if sent.isOf τ then [sent] else [] := fun τ => filter_handed_report _ sent τ
  have hown := h.ordered id call σ hcall hin hσ
  rw [hmessages] at hown
  refine ⟨h.call_of_scope, h.scope_of_call, h.alone, h.own, h.fresh, ?_, ?_, ?_, ?_, ?_, ?_, ?_, ?_, ?_⟩
  · intro j hj
    change (Function.update s.barriers id _ j).messages = []
    rw [Function.update_of_ne (h.ne_of_call hcall hj)]
    exact h.clean j hj
  · intro j
    change (Function.update s.barriers id _ j).bytes = ((Function.update s.barriers id _ j).messages.map _).sum
    by_cases hj : j = id
    · subst hj
      rw [Function.update_self]
      show (s.barriers j).bytes - size sent.message = _
      rw [hbytes]
      exact add_sub_cancel_left _ _
    · rw [Function.update_of_ne hj]
      exact h.bytes j
  · intro hopen
    refine Eq.trans ?_ (h.total_update (h.scope_of_call id call σ hopen hcall hin hσ) _).symm
    rw [← h.total hopen]
    show s.bufferedBytes - size sent.message = s.bufferedBytes - _ + ((s.barriers id).bytes - size sent.message)
    omega
  · intro j c hc x hx
    change x ∈ (Function.update s.barriers id _ j).messages at hx
    by_cases hj : j = id
    · subst hj
      rw [Function.update_self] at hx
      exact h.within j c hc x (hmessages ▸ List.mem_cons_of_mem _ hx)
    · rw [Function.update_of_ne hj] at hx
      exact h.within j c hc x hx
  · intro j c τ hc hcin hτ
    rw [hfilter]
    change Ascends (_ ++ (Function.update s.barriers id _ j).messages)
    by_cases hj : j = id
    · subst hj
      obtain rfl := Option.some.inj (hcall.symm.trans hc)
      obtain rfl := Option.some.inj (hσ.symm.trans hτ)
      rw [Function.update_self, if_pos ((hisOf _).mpr rfl), List.append_assoc]
      exact hown
    · have hne : τ ≠ σ := by
        rintro rfl
        exact hj (h.alone j id c call τ hc hcall hτ hσ)
      rw [Function.update_of_ne hj, if_neg fun hin => hne ((hisOf τ).mp hin), List.append_nil]
      exact h.ordered j c τ hc hcin hτ
  · intro τ
    rw [hfilter]
    split
    · rename_i hin
      obtain rfl := (hisOf τ).mp hin
      rw [← List.singleton_append, ← List.append_assoc] at hown
      exact (List.pairwise_append.mp hown).1
    · rw [List.append_nil]
      exact h.sequenced τ
  · intro x hx
    rw [handed_report] at hx
    rcases List.mem_append.mp hx with hx | hx
    · exact h.handed_lt x hx
    · obtain rfl := List.mem_singleton.mp hx
      exact h.buffered_lt id x (hmessages ▸ List.mem_cons_self)
  · intro j x hx
    change x ∈ (Function.update s.barriers id _ j).messages at hx
    by_cases hj : j = id
    · subst hj
      rw [Function.update_self] at hx
      exact h.buffered_lt j x (hmessages ▸ List.mem_cons_of_mem _ hx)
    · rw [Function.update_of_ne hj] at hx
      exact h.buffered_lt j x hx
  · intro j c hc hne
    obtain ⟨receipt, hreceipt⟩ := h.receipted j c hc hne
    exact ⟨receipt, List.mem_append_left _ hreceipt⟩

/-- A message whose scope the sink holds nothing of is handed over. -/
theorem Ok.handDirectly (h : Ok size s) (hopen : s.closed = false) {message : RunnerOperationalReport}
    (hnone : (operationalMessageEffectScope message).bind s.scopes.get = none) :
    Ok size ({ s with nextIndex := s.nextIndex + 1 }.delegate (.report (s.next message))) := by
  have hscope : ∀ id call σ, s.calls.get id = some call → call.phase.InEffect → call.scope = some σ →
      (s.next message).isOf σ = false := by
    intro id call σ hcall hin hσ
    rw [Bool.eq_false_iff]
    intro hisOf
    change (operationalMessageEffectScope (s.next message).message).bind _ = none at hnone
    rw [isOf_iff.mp hisOf] at hnone
    cases (h.scope_of_call id call σ hopen hcall hin hσ).symm.trans hnone
  have hfilter : ∀ τ, List.filter (·.isOf τ)
      (Sink.handed ({ s with nextIndex := s.nextIndex + 1 }.delegate (.report (s.next message)))) =
        s.handed.filter (·.isOf τ) ++ if (s.next message).isOf τ then [s.next message] else [] :=
    fun τ => filter_handed_report _ _ τ
  refine ⟨h.call_of_scope, h.scope_of_call, h.alone, h.own, h.fresh, h.clean, h.bytes, h.total, h.within, ?_, ?_, ?_, ?_, ?_⟩
  · intro id call σ hcall hin hσ
    rw [hfilter, if_neg (Bool.not_eq_true _ ▸ hscope id call σ hcall hin hσ), List.append_nil]
    exact h.ordered id call σ hcall hin hσ
  · intro τ
    rw [hfilter]
    split
    · refine List.pairwise_append.mpr ⟨h.sequenced τ, List.pairwise_singleton _ _, fun x hx y hy => ?_⟩
      obtain rfl := List.mem_singleton.mp hy
      exact h.handed_lt x (List.mem_filter.mp hx).1
    · rw [List.append_nil]
      exact h.sequenced τ
  · intro x hx
    rw [handed_report] at hx
    rcases List.mem_append.mp hx with hx | hx
    · exact Nat.lt_succ_of_lt (h.handed_lt x hx)
    · obtain rfl := List.mem_singleton.mp hx
      exact Nat.lt_succ_self _
  · intro id x hx
    exact Nat.lt_succ_of_lt (h.buffered_lt id x hx)
  · intro id call hcall hne
    obtain ⟨receipt, hreceipt⟩ := h.receipted id call hcall hne
    exact ⟨receipt, List.mem_append_left _ hreceipt⟩

/-- A message that is not sent on. -/
theorem Ok.counted (h : Ok size s) : Ok size { s with nextIndex := s.nextIndex + 1 } where
  call_of_scope := h.call_of_scope
  scope_of_call := h.scope_of_call
  alone := h.alone
  own := h.own
  fresh := h.fresh
  clean := h.clean
  bytes := h.bytes
  total := h.total
  within := h.within
  ordered := h.ordered
  sequenced := h.sequenced
  handed_lt x hx := Nat.lt_succ_of_lt (h.handed_lt x hx)
  buffered_lt id x hx := Nat.lt_succ_of_lt (h.buffered_lt id x hx)
  receipted := h.receipted

/-- A message is buffered. -/
theorem Ok.buffer (h : Ok size s) {message : RunnerOperationalReport}
    (hscope : operationalMessageEffectScope message = some σ) (hσ : s.scopes.get σ = some id) :
    Ok size ({ s with nextIndex := s.nextIndex + 1 }.buffer size id (s.next message)) := by
  obtain ⟨call, hcall, hcσ, hin⟩ := h.call_of_scope σ id hσ
  refine ⟨h.call_of_scope, h.scope_of_call, h.alone, h.own, h.fresh, ?_, ?_, ?_, ?_, ?_, h.sequenced, ?_, ?_, h.receipted⟩
  · intro j hj
    change (Function.update s.barriers id _ j).messages = []
    rw [Function.update_of_ne (h.ne_of_call hcall hj)]
    exact h.clean j hj
  · intro j
    change (Function.update s.barriers id _ j).bytes = ((Function.update s.barriers id _ j).messages.map _).sum
    by_cases hj : j = id
    · subst hj
      rw [Function.update_self, List.map_append, List.sum_append, ← h.bytes j]
      exact congrArg ((s.barriers j).bytes + ·) (List.sum_singleton).symm
    · rw [Function.update_of_ne hj]
      exact h.bytes j
  · intro hopen
    refine Eq.trans ?_ (h.total_update hσ _).symm
    rw [← h.total hopen]
    show s.bufferedBytes + size message = s.bufferedBytes - _ + ((s.barriers id).bytes + size message)
    omega
  · intro j c hc x hx
    change x ∈ (Function.update s.barriers id _ j).messages at hx
    by_cases hj : j = id
    · subst hj
      rw [Function.update_self] at hx
      obtain rfl := Option.some.inj (hcall.symm.trans hc)
      rcases List.mem_append.mp hx with hx | hx
      · exact h.within j call hc x hx
      · obtain rfl := List.mem_singleton.mp hx
        exact hscope.trans hcσ.symm
    · rw [Function.update_of_ne hj] at hx
      exact h.within j c hc x hx
  · intro j c τ hc hcin hτ
    change Ascends (_ ++ (Function.update s.barriers id _ j).messages)
    by_cases hj : j = id
    · subst hj
      rw [Function.update_self, ← List.append_assoc]
      refine List.pairwise_append.mpr ⟨h.ordered j c τ hc hcin hτ, List.pairwise_singleton _ _, fun x hx y hy => ?_⟩
      obtain rfl := List.mem_singleton.mp hy
      rcases List.mem_append.mp hx with hx | hx
      · exact h.handed_lt x (List.mem_filter.mp hx).1
      · exact h.buffered_lt j x hx
    · rw [Function.update_of_ne hj]
      exact h.ordered j c τ hc hcin hτ
  · intro x hx
    exact Nat.lt_succ_of_lt (h.handed_lt x hx)
  · intro j x hx
    change x ∈ (Function.update s.barriers id _ j).messages at hx
    by_cases hj : j = id
    · subst hj
      rw [Function.update_self] at hx
      rcases List.mem_append.mp hx with hx | hx
      · exact Nat.lt_succ_of_lt (h.buffered_lt j x hx)
      · obtain rfl := List.mem_singleton.mp hx
        exact Nat.lt_succ_self _
    · rw [Function.update_of_ne hj] at hx
      exact Nat.lt_succ_of_lt (h.buffered_lt j x hx)

/-- What becomes of a message that is sent. -/
inductive Sends (size : RunnerOperationalReport → Nat) (s : Sink) (message : RunnerOperationalReport) : Sink → Prop
  | closed (hclosed : s.closed = true) : Sends size s message { s with nextIndex := s.nextIndex + 1 }
  | directly (hopen : s.closed = false) (hnone : (operationalMessageEffectScope message).bind s.scopes.get = none) :
    Sends size s message ({ s with nextIndex := s.nextIndex + 1 }.delegate (.report (s.next message)))
  | exceeds {σ : String} {id : Nat} (hopen : s.closed = false) (hscope : operationalMessageEffectScope message = some σ)
    (hσ : s.scopes.get σ = some id) (hbytes : maximumBufferedOutboundBytes < s.bufferedBytes + size message)
    {reason : String} : Sends size s message ({ s with nextIndex := s.nextIndex + 1 }.delegate (.abort reason))
  | buffered {σ : String} {id : Nat} (hopen : s.closed = false) (hscope : operationalMessageEffectScope message = some σ)
    (hσ : s.scopes.get σ = some id) :
    Sends size s message ({ s with nextIndex := s.nextIndex + 1 }.buffer size id (s.next message))

theorem sends_send (s : Sink) (message : RunnerOperationalReport) : Sends size s message (s.send size message) := by
  unfold Sink.send
  dsimp only
  split
  · exact .closed ‹_›
  · rename_i hopen
    rw [Bool.not_eq_true] at hopen
    split
    · exact .directly hopen ‹_›
    · rename_i id hsome
      obtain ⟨σ, hscope, hσ⟩ := Option.bind_eq_some_iff.mp hsome
      split
      · exact .exceeds hopen hscope hσ ‹_›
      · exact .buffered hopen hscope hσ

theorem Ok.send (h : Ok size s) (message : RunnerOperationalReport) : Ok size (s.send size message) := by
  have hsends := (@sends_send size) s message
  generalize s.send size message = s' at hsends
  cases hsends with
  | closed => exact h.counted
  | directly hopen hnone => exact h.handDirectly hopen hnone
  | exceeds => exact h.counted.delegate rfl
  | buffered _ hscope hσ => exact h.buffer hscope hσ

/-! ## The start of a command -/

/-- The scopes, and what the sink holds of them, when a call begins. -/
theorem scopes_begin (s : Sink) (command : RunnerCommand) (τ : String) : (s.begin command).scopes.get τ =
    if runnerCommandEffectScope command = some τ then some s.nextCall else s.scopes.get τ := by
  unfold Sink.begin
  split
  · rename_i hscope
    rw [hscope, if_neg fun h => by cases h]
  · rename_i σ hscope
    rw [hscope]
    refine (OrderedMap.get_set _).trans ?_
    by_cases heq : σ = τ
    · rw [if_pos heq, if_pos (congrArg some heq)]
    · rw [if_neg heq, if_neg fun h => heq (Option.some.inj h)]

theorem begin_rest (s : Sink) (command : RunnerCommand) :
    (s.begin command).calls = s.calls.set s.nextCall ⟨command, .applying⟩ ∧
      (s.begin command).nextCall = s.nextCall + 1 ∧ (s.begin command).closed = s.closed ∧
      (s.begin command).bufferedBytes = s.bufferedBytes ∧ (s.begin command).delegated = s.delegated ∧
      (s.begin command).nextIndex = s.nextIndex ∧
      ∀ j, (s.begin command).barriers j = s.barriers j ∨ j = s.nextCall ∧ (s.begin command).barriers j = ⟨0, []⟩ := by
  unfold Sink.begin
  split
  · exact ⟨rfl, rfl, rfl, rfl, rfl, rfl, fun _ => .inl rfl⟩
  · refine ⟨rfl, rfl, rfl, rfl, rfl, rfl, fun j => ?_⟩
    by_cases hj : j = s.nextCall
    · exact .inr ⟨hj, hj ▸ Function.update_self ..⟩
    · exact .inl (Function.update_of_ne hj _ _)

theorem Ok.begin_total (h : Ok size s) (hopen : s.closed = false) (command : RunnerCommand)
    (hfree : ∀ σ, runnerCommandEffectScope command = some σ → s.scopes.get σ = none) :
    s.bufferedBytes = ((s.begin command).scopes.values.map fun id => ((s.begin command).barriers id).bytes).sum := by
  unfold Sink.begin
  split
  · exact h.total hopen
  · rename_i σ hscope
    have hsame : (s.scopes.values.map fun j => (Function.update s.barriers s.nextCall ⟨0, []⟩ j).bytes) =
        s.scopes.values.map fun j => (s.barriers j).bytes := by
      refine List.map_congr_left fun j hj => ?_
      obtain ⟨τ, hτ⟩ := OrderedMap.mem_values.mp hj
      obtain ⟨c, hc, -⟩ := h.call_of_scope τ j hτ
      rw [Function.update_of_ne (h.ne_of_call hc le_rfl).symm]
    change _ = ((s.scopes.set σ s.nextCall).values.map fun j => (Function.update s.barriers s.nextCall ⟨0, []⟩ j).bytes).sum
    rw [OrderedMap.values_set_of_get_eq_none (hfree σ hscope), List.map_append, List.sum_append, hsame, h.total hopen,
      List.map_singleton, List.sum_singleton, Function.update_self, add_zero]

theorem Ok.begin (h : Ok size s) (hopen : s.closed = false) {command : RunnerCommand}
    (hfree : ∀ σ, runnerCommandEffectScope command = some σ → s.scopes.get σ = none ∧ s.applies σ = false) :
    Ok size (s.begin command) := by
  obtain ⟨hcalls, hnextCall, hclosed, hbytes, hdelegated, hnextIndex, hbarriers⟩ := begin_rest s command
  have hhanded : (s.begin command).handed = s.handed := congrArg (List.filterMap DelegateCall.report?) hdelegated
  have hget : ∀ j c, (s.begin command).calls.get j = some c →
      s.nextCall ≠ j ∧ s.calls.get j = some c ∨ s.nextCall = j ∧ c = ⟨command, .applying⟩ := by
    intro j c hc
    rw [hcalls, OrderedMap.get_set] at hc
    split at hc
    · exact .inr ⟨‹_›, (Option.some.inj hc).symm⟩
    · exact .inl ⟨‹_›, hc⟩
  -- No other call has the scope of the new one.
  have hnew : ∀ j c σ, s.calls.get j = some c → c.scope = some σ → runnerCommandEffectScope command ≠ some σ := by
    intro j c σ hc hσ hscope
    have happlies := (hfree σ hscope).2
    rw [Sink.applies, List.any_eq_false] at happlies
    exact happlies c (OrderedMap.mem_values.mpr ⟨j, hc⟩) (decide_eq_true hσ)
  have hold : ∀ j, s.nextCall ≠ j → (s.begin command).barriers j = s.barriers j :=
    fun j hj => (hbarriers j).resolve_right fun h => hj h.1.symm
  have hmessages : ∀ j, ((s.begin command).barriers j).messages = (s.barriers j).messages := by
    intro j
    rcases hbarriers j with hj | ⟨rfl, hj⟩
    · rw [hj]
    · rw [hj, h.clean _ le_rfl]
  refine ⟨?_, ?_, ?_, ?_, ?_, ?_, ?_, ?_, ?_, ?_, ?_, ?_, ?_, ?_⟩
  · intro σ j hσ
    rw [scopes_begin] at hσ
    rw [hcalls, OrderedMap.get_set]
    split at hσ
    · obtain rfl := Option.some.inj hσ
      rename_i hscope
      exact ⟨_, if_pos rfl, hscope, trivial⟩
    · obtain ⟨c, hc, hrest⟩ := h.call_of_scope σ j hσ
      exact ⟨c, (if_neg (h.ne_of_call hc le_rfl)).trans hc, hrest⟩
  · intro j c σ hopen' hc hin hσ
    rw [scopes_begin]
    rcases hget j c hc with ⟨hj, hc⟩ | ⟨rfl, rfl⟩
    · rw [if_neg (hnew j c σ hc hσ)]
      exact h.scope_of_call j c σ hopen hc hin hσ
    · exact if_pos hσ
  · intro i j c d σ hc hd hcσ hdσ
    rcases hget i c hc with ⟨-, hc⟩ | ⟨rfl, rfl⟩
    · rcases hget j d hd with ⟨-, hd⟩ | ⟨rfl, rfl⟩
      · exact h.alone i j c d σ hc hd hcσ hdσ
      · exact (hnew i c σ hc hcσ hdσ).elim
    · rcases hget j d hd with ⟨-, hd⟩ | ⟨rfl, rfl⟩
      · exact (hnew j d σ hd hdσ hcσ).elim
      · rfl
  · intro j c b hc hb
    rcases hget j c hc with ⟨-, hc⟩ | ⟨rfl, rfl⟩
    · exact h.own j c b hc hb
    · cases hb
  · intro j hj
    rw [hnextCall] at hj
    rw [hcalls, OrderedMap.get_set, if_neg (by omega)]
    exact h.fresh j (by omega)
  · intro j hj
    rw [hnextCall] at hj
    rw [hmessages]
    exact h.clean j (by omega)
  · intro j
    rcases hbarriers j with hj | ⟨-, hj⟩
    · rw [hj]
      exact h.bytes j
    · rw [hj]
      rfl
  · intro _
    rw [hbytes]
    exact h.begin_total hopen command fun σ hσ => (hfree σ hσ).1
  · intro j c hc x hx
    rw [hmessages] at hx
    rcases hget j c hc with ⟨-, hc⟩ | ⟨rfl, rfl⟩
    · exact h.within j c hc x hx
    · rw [h.clean _ le_rfl] at hx
      cases hx
  · intro j c σ hc hin hσ
    rw [hhanded, hmessages]
    rcases hget j c hc with ⟨-, hc⟩ | ⟨rfl, rfl⟩
    · exact h.ordered j c σ hc hin hσ
    · rw [h.clean _ le_rfl, List.append_nil]
      exact h.sequenced σ
  · rw [hhanded]
    exact h.sequenced
  · rw [hhanded, hnextIndex]
    exact h.handed_lt
  · intro j x hx
    rw [hmessages] at hx
    rw [hnextIndex]
    exact h.buffered_lt j x hx
  · intro j c hc hne
    rw [hdelegated]
    rcases hget j c hc with ⟨-, hc⟩ | ⟨rfl, rfl⟩
    · exact h.receipted j c hc hne
    · exact (hne rfl).elim

/-! ## Every step -/

theorem Ok.close (h : Ok size s) : Ok size s.close := by
  unfold Sink.close
  split
  · exact h
  · have hclosed : Ok size { s with closed := true, scopes := .empty, bufferedBytes := 0 } := {
      h with
      call_of_scope := fun _ _ h => (nomatch h)
      scope_of_call := fun _ _ _ h => (nomatch h)
      total := fun h => (nomatch h) }
    exact hclosed.delegate rfl

theorem Ok.releaseNext (h : Ok size s) (hcall : s.calls.get id = some call) (hin : call.phase.InEffect)
    (hne : call.phase ≠ .applying) (hσ : call.scope = some σ) : Ok size (s.releaseNext size id call id) := by
  have hreceipt := h.receipted id call hcall hne
  unfold Sink.releaseNext
  split
  · refine (@Ok.leave _ _ _ _ h hcall _ (some { call with phase := .settling false })) (fun j => ?_) ?_
    · rw [(discardOf_rest s call).2.2.1, OrderedMap.get_modify, hcall]
      rfl
    · rintro c ⟨rfl⟩
      exact ⟨rfl, fun h => h, hreceipt⟩
  · rename_i sent messages hmessages
    refine (h.handOver hcall hin hσ hmessages).setPhase hcall hin trivial (fun b hb => ?_) ?_
    · exact ⟨(Phase.releasing.inj hb).symm, by rw [hσ]; rfl⟩
    · obtain ⟨receipt, hreceipt⟩ := hreceipt
      exact ⟨receipt, List.mem_append_left _ hreceipt⟩

/-- A scope that a call in effect has is held for it. -/
theorem Ok.scope_eq (h : Ok size s) (hcall : s.calls.get id = some call) (hσ : call.scope = some σ)
    (hb : s.scopes.get σ = some b) : b = id := by
  obtain ⟨c, hc, hcσ, -⟩ := h.call_of_scope σ b hb
  exact h.alone b id c call σ hc hcall hcσ hσ

theorem Ok.settle_ended (h : Ok size s) (hcall : s.calls.get id = some call) : Ok size ((s.discardOf call).settle id) := by
  refine (@Ok.leave _ _ _ _ h hcall _ none) (fun j => ?_) (fun _ h => (nomatch h))
  rw [(discardOf_rest s call).2.2.1, OrderedMap.get_delete]

theorem Ok.settling (h : Ok size s) (hcall : s.calls.get id = some call) (hne : call.phase ≠ .applying) (failed : Bool) :
    Ok size ((s.discardOf call).setPhase id (.settling failed)) := by
  refine (@Ok.leave _ _ _ _ h hcall _ (some { call with phase := .settling failed })) (fun j => ?_) ?_
  · rw [(discardOf_rest s call).2.2.1, OrderedMap.get_modify, hcall]
    rfl
  · rintro c ⟨rfl⟩
    exact ⟨rfl, fun h => h, h.receipted id call hcall hne⟩

theorem Ok.step (h : Ok size s) {action : Action} (hstep : (machine size).step s action = some s') : Ok size s' := by
  cases action with
  | send message => exact Option.some.inj hstep ▸ h.send message
  | applyCommand command =>
    change (if _ then none else some (s.applyCommand command)) = some s' at hstep
    split at hstep
    · cases hstep
    rename_i happlies
    obtain rfl := Option.some.inj hstep
    have hfree : ∀ σ, runnerCommandEffectScope command = some σ → s.applies σ = false := by
      intro σ hσ
      rw [hσ] at happlies
      exact Bool.eq_false_iff.mpr happlies
    unfold Sink.applyCommand
    split
    · exact h
    rename_i hopen
    rw [Bool.not_eq_true] at hopen
    split
    · rename_i hscope
      exact h.begin hopen fun σ hσ => by cases hscope.symm.trans hσ
    · rename_i σ hscope
      split
      · exact h
      · rename_i hnone
        refine h.begin hopen fun τ hτ => ⟨?_, hfree τ hτ⟩
        obtain rfl := Option.some.inj (hscope.symm.trans hτ)
        simpa using hnone
  | decides id decision =>
    obtain ⟨call, hcall, hstep⟩ := Option.bind_eq_some_iff.mp hstep
    split at hstep
    · exact Option.some.inj hstep ▸ h.decides hcall ‹_› decision
    · cases hstep
  | applyFails id =>
    obtain ⟨call, hcall, hstep⟩ := Option.bind_eq_some_iff.mp hstep
    split at hstep
    · exact Option.some.inj hstep ▸ h.settle_ended hcall
    · cases hstep
  | sent id =>
    obtain ⟨call, hcall, hstep⟩ := Option.bind_eq_some_iff.mp hstep
    unfold Sink.sent at hstep
    split at hstep
    · rename_i hphase
      obtain rfl := Option.some.inj hstep
      unfold Sink.release
      split
      · rename_i hnone
        have hsame : s.discardOf call = s := by
          unfold Sink.discardOf Sink.discard
          cases hσ : call.scope with
          | none => rfl
          | some σ =>
            rw [hσ] at hnone
            change s.scopes.get σ = none at hnone
            dsimp only
            rw [hnone]
        have hsettling := h.settling hcall (hphase ▸ fun h => by cases h) false
        rwa [hsame] at hsettling
      · rename_i b hb
        obtain ⟨σ, hσ, hb⟩ := Option.bind_eq_some_iff.mp hb
        obtain rfl := h.scope_eq hcall hσ hb
        exact h.releaseNext hcall (hphase ▸ trivial) (hphase ▸ fun h => by cases h) hσ
    · rename_i b hphase
      obtain rfl := Option.some.inj hstep
      obtain ⟨rfl, hsome⟩ := h.own id call b hcall hphase
      obtain ⟨σ, hσ⟩ := Option.isSome_iff_exists.mp hsome
      exact h.releaseNext hcall (hphase ▸ trivial) (hphase ▸ fun h => by cases h) hσ
    · cases hstep
  | sendFails id =>
    obtain ⟨call, hcall, hstep⟩ := Option.bind_eq_some_iff.mp hstep
    unfold Sink.sendFails at hstep
    split at hstep
    · exact Option.some.inj hstep ▸ h.settle_ended hcall
    · rename_i hphase
      exact Option.some.inj hstep ▸ h.settling hcall (hphase ▸ fun h => by cases h) true
    · cases hstep
  | settles id =>
    obtain ⟨call, hcall, hstep⟩ := Option.bind_eq_some_iff.mp hstep
    unfold Sink.settles at hstep
    split at hstep
    · rename_i failed hphase
      obtain rfl := Option.some.inj hstep
      have hsame : s.discardOf call = s := by
        unfold Sink.discardOf Sink.discard
        cases hσ : call.scope with
        | none => rfl
        | some σ =>
          cases hb : s.scopes.get σ with
          | none =>
            dsimp only
            rw [hb]
          | some b =>
            obtain rfl := h.scope_eq hcall hσ hb
            obtain ⟨c, hc, -, hin⟩ := h.call_of_scope σ b hb
            obtain rfl := Option.some.inj (hcall.symm.trans hc)
            rw [hphase] at hin
            exact hin.elim
      have hended := h.settle_ended hcall
      rw [hsame] at hended
      cases failed with
      | true =>
        rw [if_pos rfl, hsame]
        exact hended
      | false => exact hended
    · cases hstep
  | close => exact Option.some.inj hstep ▸ h.close

theorem ok_run {as : List Action} (hrun : (machine size).run initial as = some s) : Ok size s :=
  (machine size).invariant .initial (fun _ _ _ h hstep => h.step hstep) hrun

end Opensteer.CausalSink
