import Mathlib
import Opensteer.RunnerRuntime.Model

/-!
# What a Run may still report

`#emit` counts a Run's events and their bytes, and leaves room for what the Run will
owe: a cancellation of each pending Request, its usage, and the event that ends it. Most
steps leave a Run's account as it is (`Keeps`), and the others are an emit, its return
and a Request's answer (`step_active`).

The room for the terminal event is there in every run (`Counted`). That the Requests it
counts are those still to be answered (`Tallied`) needs the emits not to overlap
(`Timely`): an emit reads the pending Requests before it waits for the network, and
says what they are after.
-/

namespace Opensteer.RunnerRuntime

open Opensteer.RunnerRuntime.Runtime

/-! ## Every Run -/

/-- `P` is so of every Run there was. -/
def Each (P : Nat → ActiveRun → Prop) (r : Runtime) : Prop := ∀ i a, r.actives.get i = some a → P i a

variable {o : Options} {r r' : Runtime} {P : Nat → ActiveRun → Prop} {i : Nat} {a a' : ActiveRun}

theorem Each.set (h : Each P r) (ha : P i a) : Each P { r with actives := r.actives.set i a } := by
  intro j b hb
  rw [OrderedMap.get_set] at hb
  split at hb
  · rename_i hj
    obtain rfl := Option.some.inj hb
    exact hj ▸ ha
  · exact h j b hb

theorem Each.modify {f : ActiveRun → ActiveRun} (h : Each P r) (hf : ∀ i a, P i a → P i (f a))
    (i : Nat) : Each P (r.modify i f) := by
  intro j b hb
  simp only [Runtime.modify, OrderedMap.get_modify] at hb
  split at hb
  · rename_i hj
    obtain ⟨a, ha, rfl⟩ := Option.map_eq_some_iff.mp hb
    exact hj ▸ hf i a (h i a ha)
  · exact h j b hb

theorem Each.foldl {β : Type} {g : Runtime → β → Runtime} (hg : ∀ r b, Each P r → Each P (g r b))
    (bs : List β) (h : Each P r) : Each P (bs.foldl g r) := by
  induction bs generalizing r with
  | nil => exact h
  | cons b bs ih => exact ih (hg r b h)

theorem Each.revokeRuns (h : Each P r) (hf : ∀ i a, P i a → P i { a with revoked := true })
    (runIds : List RunId) : Each P (r.revokeRuns runIds) := by
  refine Each.foldl (fun r runId hr => ?_) runIds h
  unfold revokeRun
  dsimp only
  split
  · exact hr
  · exact Each.modify (r := { r with settledRuns := r.settledRuns.delete runId }) hr hf _

theorem Each.releaseIfSettled (h : Each P r) (i : Nat) : Each P (r.releaseIfSettled i) := by
  unfold Runtime.releaseIfSettled
  split
  · exact h
  · split
    · exact h
    · exact h

theorem Each.dropSettled (h : Each P r) (now : Nat) (settled : List (RunId × Nat)) (bytes : Nat) :
    Each P (dropSettled now settled bytes r) := by
  induction settled generalizing r bytes with
  | nil => exact h
  | cons e settled ih =>
    unfold Runtime.dropSettled
    split
    · exact h
    · split
      · exact h
      · exact ih (r := { r with settledRuns := r.settledRuns.delete e.1 }) h _

/-! ## A Run's account -/

/-- What a Run has recorded and may record stays, and its journal holds no more. -/
structure Keeps (a a' : ActiveRun) : Prop where
  inProgress : a'.inProgress = a.inProgress
  pendingRequestIds : a'.pendingRequestIds = a.pendingRequestIds
  outstanding : a'.outstanding = a.outstanding
  emittedEvents : a'.emittedEvents = a.emittedEvents
  emittedEventBytes : a'.emittedEventBytes = a.emittedEventBytes
  recorded : a'.recorded = a.recorded
  nextOrdinal : a'.nextOrdinal = a.nextOrdinal
  firstOrdinal : a'.firstOrdinal = a.firstOrdinal
  terminal : a'.journal.terminal = a.journal.terminal
  bytes : a'.journal.bytes ≤ a.journal.bytes

theorem Keeps.refl (a : ActiveRun) : Keeps a a :=
  ⟨rfl, rfl, rfl, rfl, rfl, rfl, rfl, rfl, rfl, Nat.le_refl _⟩

theorem Keeps.trans {b : ActiveRun} (h : Keeps a b) (h' : Keeps b a') : Keeps a a' where
  inProgress := h'.inProgress.trans h.inProgress
  pendingRequestIds := h'.pendingRequestIds.trans h.pendingRequestIds
  outstanding := h'.outstanding.trans h.outstanding
  emittedEvents := h'.emittedEvents.trans h.emittedEvents
  emittedEventBytes := h'.emittedEventBytes.trans h.emittedEventBytes
  recorded := h'.recorded.trans h.recorded
  nextOrdinal := h'.nextOrdinal.trans h.nextOrdinal
  firstOrdinal := h'.firstOrdinal.trans h.firstOrdinal
  terminal := h'.terminal.trans h.terminal
  bytes := Nat.le_trans h'.bytes h.bytes

theorem keeps_addPump (pump : Pump) (h : pump.pendingAfter = none) : Keeps a (a.addPump pump) :=
  ⟨by simp [ActiveRun.inProgress, ActiveRun.addPump, h],
    rfl, rfl, rfl, rfl, rfl, rfl, rfl, rfl, Nat.le_refl _⟩

theorem keeps_finish (a : ActiveRun) : Keeps a a.finish := by
  unfold ActiveRun.finish
  split
  · exact .refl a
  · rename_i pump pumps hpumps
    refine ⟨?_, rfl, rfl, rfl, rfl, rfl, rfl, rfl, rfl, Nat.le_refl _⟩
    simp only [ActiveRun.inProgress, hpumps]
    cases hp : pump.pendingAfter with
    | none => rw [List.filterMap_cons_none hp, Option.toList_none, List.append_nil]
    | some p =>
      rw [List.filterMap_cons_some hp, Option.toList_some, List.append_assoc, List.singleton_append]

theorem keeps_sendOn (a : ActiveRun) (connection : Option Nat) (on : Nat) :
    Keeps a (a.sendOn connection on) := by
  unfold ActiveRun.sendOn
  split
  · exact keeps_finish a
  · split
    · exact keeps_finish a
    · exact ⟨rfl, rfl, rfl, rfl, rfl, rfl, rfl, rfl, rfl, Nat.le_refl _⟩

theorem keeps_pumpStarts {connection : Option Nat} (h : a.pumpStarts connection = some a') :
    Keeps a a' := by
  unfold ActiveRun.pumpStarts at h
  split at h
  · cases h
  split at h
  · obtain rfl := Option.some.inj h
    exact keeps_finish a
  split at h
  · obtain rfl := Option.some.inj h
    exact keeps_finish a
  split at h
  · obtain rfl := Option.some.inj h
    exact ⟨rfl, rfl, rfl, rfl, rfl, rfl, rfl, rfl, rfl, Nat.le_refl _⟩
  · obtain rfl := Option.some.inj h
    exact keeps_sendOn ..

theorem keeps_sendSettles {connection : Option Nat} {ok : Bool}
    (h : a.sendSettles connection ok = some a') : Keeps a a' := by
  -- What it does first changes nothing of the account.
  have hsame : ∀ b : ActiveRun, Keeps b a' → Keeps a b → Keeps a a' := fun b h h' => h'.trans h
  unfold ActiveRun.sendSettles at h
  split at h
  · cases h
  · split at h
    · obtain rfl := Option.some.inj h
      exact hsame _ (keeps_finish _) ⟨rfl, rfl, rfl, rfl, rfl, rfl, rfl, rfl, rfl, Nat.le_refl _⟩
    split at h
    · obtain rfl := Option.some.inj h
      exact keeps_finish a
    · obtain rfl := Option.some.inj h
      exact hsame _ (keeps_sendOn ..) ⟨rfl, rfl, rfl, rfl, rfl, rfl, rfl, rfl, rfl, Nat.le_refl _⟩
  · dsimp only at h
    split at h
    · obtain rfl := Option.some.inj h
      exact hsame _ (keeps_finish _) ⟨rfl, rfl, rfl, rfl, rfl, rfl, rfl, rfl, rfl, Nat.le_refl _⟩
    split at h
    · obtain rfl := Option.some.inj h
      exact hsame _ (keeps_finish _) ⟨rfl, rfl, rfl, rfl, rfl, rfl, rfl, rfl, rfl, Nat.le_refl _⟩
    · obtain rfl := Option.some.inj h
      exact hsame _ (keeps_sendOn ..) ⟨rfl, rfl, rfl, rfl, rfl, rfl, rfl, rfl, rfl, Nat.le_refl _⟩

/-- What forgetting events leaves of a journal. -/
structure Discards (journal journal' : RunJournal) : Prop where
  pumps : journal'.pumps = journal.pumps
  sending : journal'.sending = journal.sending
  terminal : journal'.terminal = journal.terminal
  sendNext : journal'.sendNext = journal.sendNext
  sessionBound : journal'.sessionBound = journal.sessionBound
  bytes : journal'.bytes ≤ journal.bytes

theorem discards_discard (below : Nat) (journal : RunJournal) : Discards journal (journal.discard below) := by
  have hloop : ∀ (entries : List (Nat × JournalEntry)) (j : RunJournal), Discards journal j →
      Discards journal (entries.foldl (fun j e =>
        if e.1 < below then { j with events := j.events.delete e.1, bytes := j.bytes - e.2.bytes }
        else j) j) := by
    intro entries
    induction entries with
    | nil => exact fun _ h => h
    | cons e entries ih =>
      intro j h
      rw [List.foldl_cons]
      refine ih _ ?_
      split
      · exact ⟨h.pumps, h.sending, h.terminal, h.sendNext, h.sessionBound,
          (Nat.sub_le ..).trans h.bytes⟩
      · exact h
  exact hloop _ _ ⟨rfl, rfl, rfl, rfl, rfl, Nat.le_refl _⟩

theorem keeps_discard (a : ActiveRun) (below : Nat) :
    Keeps a { a with journal := a.journal.discard below } := by
  have h := discards_discard below a.journal
  exact ⟨by simp only [ActiveRun.inProgress, h.pumps], rfl, rfl, rfl, rfl, rfl, rfl, rfl, h.terminal,
    h.bytes⟩

theorem keeps_resume (a : ActiveRun) (connection nextOrdinal : Nat) :
    Keeps a (a.resume connection nextOrdinal) := by
  have h := keeps_discard a nextOrdinal
  refine ⟨?_, rfl, rfl, rfl, rfl, rfl, rfl, rfl, h.terminal, h.bytes⟩
  refine Eq.trans ?_ h.inProgress
  simp [ActiveRun.inProgress, ActiveRun.resume]

/-! ## Steps -/

theorem isTerminal_outcome (a : ActiveRun) (event : HarnessEvent) :
    (a.outcome event).isTerminal = event.isTerminal := by
  unfold ActiveRun.outcome
  split
  · rename_i h
    simp only [Bool.and_eq_true] at h
    rw [h.2]
    rfl
  · rfl

theorem outcome_eq {event : HarnessEvent} (h : event.isTerminal = false) : a.outcome event = event := by
  simp [ActiveRun.outcome, h]

/-- An emit records its event, of a Run that goes on, when there is room of each kind. -/
theorem emit_eq_recorded {event : HarnessEvent} {bytes : Nat} :
    a.emit o event bytes = .recorded a' ↔
      a.revoked = false ∧ a.journal.terminal = false ∧ (a.shutdown && event.isTerminal) = false ∧
      bytes ≤ pendingAgentEventMaxSerializedBytes ∧
      ((a.emittedEvents + 1 : Nat) : Int) ≤ ActiveRun.eventLimit o (a.outcome event)
        ((a.outcome event).pendingAfter a.pendingRequestIds).card ∧
      ((a.emittedEventBytes + bytes : Nat) : Int) ≤ ActiveRun.byteLimit o (a.outcome event)
        ((a.outcome event).pendingAfter a.pendingRequestIds).card ∧
      a.journal.bytes + bytes ≤ ActiveRun.journalLimit (a.outcome event) ∧
      a' = a.record (a.outcome event) bytes := by
  unfold ActiveRun.emit
  cases hrevoked : a.revoked with
  | true => simp
  | false =>
    cases hterminal : a.journal.terminal with
    | true => simp
    | false =>
      cases hshutdown : (a.shutdown && event.isTerminal) with
      | true => simp
      | false =>
        simp only [Bool.or_self, Bool.false_eq_true, if_false, true_and]
        split
        · rename_i hschema
          simp [Nat.not_le.mpr hschema]
        rename_i hschema
        split
        · rename_i hbudget
          constructor
          · intro h
            cases h
          · rintro ⟨-, hevents, hbytes, -⟩
            omega
        rename_i hbudget
        simp only [not_or, Int.not_lt] at hbudget
        split
        · rename_i hjournal
          constructor
          · intro h
            cases h
          · rintro ⟨-, -, -, h, -⟩
            omega
        rename_i hjournal
        constructor
        · intro h
          exact ⟨by omega, hbudget.1, hbudget.2, by omega, (Emitted.recorded.inj h).symm⟩
        · rintro ⟨-, -, -, -, rfl⟩
          rfl

/-! ## A step -/

theorem ofExecuting_cases {f : ActiveRun → Option ActiveRun} (hstep : r.ofExecuting i f = some r') :
    ∃ a a', r.actives.get i = some a ∧ r.isExecuting i a = true ∧ f a = some a' ∧
      r' = { r with actives := r.actives.set i a' } := by
  unfold Runtime.ofExecuting at hstep
  split at hstep
  · cases hstep
  rename_i a ha
  split at hstep
  · rename_i hexecuting
    obtain ⟨a', ha', rfl⟩ := Option.map_eq_some_iff.mp hstep
    exact ⟨a, a', ha, hexecuting, ha', rfl⟩
  · cases hstep

theorem step_emits (hstep : (machine o).step r (.emits i event bytes) = some r') :
    ∃ a, r.actives.get i = some a ∧
      ((∃ a', a.emit o event bytes = .recorded a' ∧ r.isExecuting i a = true ∧
          r' = { r with actives := r.actives.set i a' }) ∨ r' = r) := by
  simp only [machine, step] at hstep
  split at hstep
  · cases hstep
  rename_i a ha
  refine ⟨a, ha, ?_⟩
  split at hstep
  · rename_i a' hemit
    split at hstep
    · rename_i hexecuting
      exact .inl ⟨a', hemit, hexecuting, (Option.some.inj hstep).symm⟩
    · cases hstep
  · exact .inr (Option.some.inj hstep).symm

theorem step_emitReturns (hstep : (machine o).step r (.emitReturns i) = some r') :
    ∃ a a', r.actives.get i = some a ∧ a.emitReturns = some a' ∧
      r' = { r with actives := r.actives.set i a' } := by
  simp only [machine, step] at hstep
  split at hstep
  · cases hstep
  rename_i a ha
  obtain ⟨a', hreturns, rfl⟩ := Option.map_eq_some_iff.mp hstep
  exact ⟨a, a', ha, hreturns, rfl⟩

theorem step_hostCommits (hstep : (machine o).step r (.hostCommits i) = some r') :
    ∃ a, r.actives.get i = some a ∧
      (a.sends.any fun s => s.connection + 1 = r.connections && s.ordinal = a.committed) = true ∧
      r' = r.modify i fun a => { a with committed := a.committed + 1 } := by
  simp only [machine, step] at hstep
  split at hstep
  · cases hstep
  rename_i a ha
  split at hstep
  · rename_i hany
    exact ⟨a, ha, hany, (Option.some.inj hstep).symm⟩
  · cases hstep

/-- A Run as a step leaves it is one just admitted, or was there, and its account stays
unless the step is an emit, an emit's return or a Request's answer. -/
theorem step_active {action : Action} (hstep : (machine o).step r action = some r')
    (ha' : r'.actives.get i = some a') :
    (∃ runId bindingGeneration firstOrdinal connection,
      a' = ActiveRun.start runId bindingGeneration firstOrdinal connection) ∨
    ∃ a, r.actives.get i = some a ∧ (Keeps a a' ∨
      (∃ event bytes, action = .emits i event bytes ∧ a.emit o event bytes = .recorded a') ∨
      (action = .emitReturns i ∧ a.emitReturns = some a') ∨
      ∃ requestId, action = .resolvesRequest i requestId ∧ a' = a.resolveRequest requestId) := by
  have hsame : Each (fun i a' => ∃ a, r.actives.get i = some a ∧ Keeps a a') r :=
    fun i a ha => ⟨a, ha, .refl a⟩
  have hkeeps : Each (fun i a' => ∃ a, r.actives.get i = some a ∧ Keeps a a') r' →
      (∃ runId bindingGeneration firstOrdinal connection,
        a' = ActiveRun.start runId bindingGeneration firstOrdinal connection) ∨
      ∃ a, r.actives.get i = some a ∧ (Keeps a a' ∨
        (∃ event bytes, action = .emits i event bytes ∧ a.emit o event bytes = .recorded a') ∨
        (action = .emitReturns i ∧ a.emitReturns = some a') ∨
        ∃ requestId, action = .resolvesRequest i requestId ∧ a' = a.resolveRequest requestId) := by
    intro h
    obtain ⟨a, ha, hkeep⟩ := h i a' ha'
    exact .inr ⟨a, ha, .inl hkeep⟩
  -- Of one Run, what is done to it.
  have hset : ∀ {j : Nat} {b b' : ActiveRun}, r.actives.get j = some b →
      r'.actives = r.actives.set j b' → (i = j ∧ a' = b') ∨ r.actives.get i = some a' := by
    intro j b b' hb hactives
    rw [hactives, OrderedMap.get_set] at ha'
    split at ha'
    · exact .inl ⟨(‹_› : _ = _).symm, (Option.some.inj ha').symm⟩
    · exact .inr ha'
  have hone : ∀ {j : Nat} {b b' : ActiveRun}, r.actives.get j = some b → Keeps b b' →
      Each (fun i a' => ∃ a, r.actives.get i = some a ∧ Keeps a a')
        { r with actives := r.actives.set j b' } :=
    fun hb hkeep => hsame.set ⟨_, hb, hkeep⟩
  have hadvance : ∀ {j : Nat} {f : ActiveRun → Option Nat → Option ActiveRun},
      (∀ b b', f b r.connection = some b' → Keeps b b') → r.advance j f = some r' →
      Each (fun i a' => ∃ a, r.actives.get i = some a ∧ Keeps a a') r' := by
    intro j f hf hstep
    unfold Runtime.advance at hstep
    split at hstep
    · cases hstep
    rename_i b hb
    obtain ⟨b', hb', rfl⟩ := Option.map_eq_some_iff.mp hstep
    have hset := hone hb (hf b b' hb')
    dsimp only
    split
    · exact hset.releaseIfSettled j
    · exact hset
  cases action with
  | admits runId bindingGeneration firstOrdinal =>
    change r.admits runId bindingGeneration firstOrdinal = some r' at hstep
    unfold Runtime.admits at hstep
    split at hstep
    · obtain rfl := Option.some.inj hstep
      rw [OrderedMap.get_set] at ha'
      split at ha'
      · exact .inl ⟨_, _, _, _, (Option.some.inj ha').symm⟩
      · exact .inr ⟨a', ha', .inl (.refl a')⟩
    · cases hstep
  | emits j event bytes =>
    obtain ⟨b, hb, ⟨b', hemit, -, rfl⟩ | rfl⟩ := step_emits hstep
    · rcases hset hb rfl with ⟨rfl, rfl⟩ | ha
      · exact .inr ⟨b, hb, .inr (.inl ⟨event, bytes, rfl, hemit⟩)⟩
      · exact .inr ⟨a', ha, .inl (.refl a')⟩
    · exact hkeeps hsame
  | emitReturns j =>
    obtain ⟨b, b', hb, hreturns, rfl⟩ := step_emitReturns hstep
    rcases hset hb rfl with ⟨rfl, rfl⟩ | ha
    · exact .inr ⟨b, hb, .inr (.inr (.inl ⟨rfl, hreturns⟩))⟩
    · exact .inr ⟨a', ha, .inl (.refl a')⟩
  | resolvesRequest j requestId =>
    obtain ⟨b, b', hb, -, hb', rfl⟩ := ofExecuting_cases hstep
    obtain rfl := Option.some.inj hb'
    rcases hset hb rfl with ⟨rfl, rfl⟩ | ha
    · exact .inr ⟨b, hb, .inr (.inr (.inr ⟨requestId, rfl, rfl⟩))⟩
    · exact .inr ⟨a', ha, .inl (.refl a')⟩
  | bindsSession j =>
    obtain ⟨b, b', hb, -, hb', rfl⟩ := ofExecuting_cases hstep
    obtain rfl := Option.some.inj hb'
    have hbind : Keeps b { b with journal := { b.journal with sessionBound := true } } :=
      ⟨rfl, rfl, rfl, rfl, rfl, rfl, rfl, rfl, rfl, Nat.le_refl _⟩
    exact hkeeps (hone hb (hbind.trans (keeps_addPump _ rfl)))
  | flushes j =>
    obtain ⟨b, b', hb, -, hb', rfl⟩ := ofExecuting_cases hstep
    split at hb'
    · obtain rfl := Option.some.inj hb'
      exact hkeeps (hone hb (keeps_addPump _ rfl))
    · cases hb'
  | pumpStarts j => exact hkeeps (hadvance (fun _ _ h => keeps_pumpStarts h) hstep)
  | sendSettles j ok =>
    exact hkeeps (hadvance (f := fun b connection => b.sendSettles connection ok)
      (fun _ _ h => keeps_sendSettles h) hstep)
  | attached results =>
    change (if r.Answers results then some (r.attach results) else none) = some r' at hstep
    split at hstep
    swap
    · cases hstep
    obtain rfl := Option.some.inj hstep
    refine hkeeps (Each.revokeRuns (Each.foldl (r := { r with
      connection := some r.connections, connections := r.connections + 1 })
      (fun r₁ result hr₁ => ?_) results hsame) ?_ _)
    · unfold attachResult
      split
      · refine hr₁.modify ?_ _
        rintro j b ⟨a, ha, hkeep⟩
        exact ⟨a, ha, hkeep.trans (keeps_resume b _ _)⟩
      · exact hr₁
    · rintro j b ⟨a, ha, hkeep⟩
      exact ⟨a, ha, hkeep.trans ⟨rfl, rfl, rfl, rfl, rfl, rfl, rfl, rfl, rfl, Nat.le_refl _⟩⟩
  | acked acks =>
    change (if r.Acknowledges acks then some (r.acknowledge acks) else none) = some r' at hstep
    split at hstep
    swap
    · cases hstep
    obtain rfl := Option.some.inj hstep
    refine hkeeps (Each.foldl (fun r₁ ack hr₁ => ?_) acks hsame)
    unfold acknowledgeRun
    split
    · exact hr₁
    · refine (hr₁.modify ?_ _).releaseIfSettled _
      rintro j b ⟨a, ha, hkeep⟩
      have hbound : Keeps { b with journal := b.journal.discard (ack.2.1 + 1).toNat }
          { b with journal := { b.journal.discard (ack.2.1 + 1).toNat with
            sessionBound := (b.journal.discard (ack.2.1 + 1).toNat).sessionBound && !ack.2.2 } } :=
        ⟨rfl, rfl, rfl, rfl, rfl, rfl, rfl, rfl, rfl, Nat.le_refl _⟩
      exact ⟨a, ha, hkeep.trans ((keeps_discard b _).trans hbound)⟩
  | connectionLost connection =>
    obtain rfl := Option.some.inj hstep
    refine hkeeps ?_
    unfold Runtime.connectionLost
    split
    · exact hsame
    · exact hsame
  | revoked runIds =>
    obtain rfl := Option.some.inj hstep
    refine hkeeps (hsame.revokeRuns ?_ runIds)
    rintro j b ⟨a, ha, hkeep⟩
    exact ⟨a, ha, hkeep.trans ⟨rfl, rfl, rfl, rfl, rfl, rfl, rfl, rfl, rfl, Nat.le_refl _⟩⟩
  | shutsDown =>
    obtain rfl := Option.some.inj hstep
    refine hkeeps (Each.foldl (fun r₁ j hr₁ => hr₁.modify ?_ j) _ hsame)
    rintro j b ⟨a, ha, hkeep⟩
    exact ⟨a, ha, hkeep.trans ⟨rfl, rfl, rfl, rfl, rfl, rfl, rfl, rfl, rfl, Nat.le_refl _⟩⟩
  | settles j now =>
    change r.settles j now = some r' at hstep
    unfold Runtime.settles at hstep
    split at hstep
    · cases hstep
    split at hstep
    · dsimp only at hstep
      split at hstep
      · obtain rfl := Option.some.inj hstep
        refine hkeeps (Each.modify (r := r) hsame ?_ j)
        rintro j b ⟨a, ha, hkeep⟩
        exact ⟨a, ha, hkeep.trans ⟨rfl, rfl, rfl, rfl, rfl, rfl, rfl, rfl, rfl, Nat.le_refl _⟩⟩
      · obtain rfl := Option.some.inj hstep
        exact hkeeps hsame
    · cases hstep
  | enforcesLeases now lost =>
    obtain rfl := Option.some.inj hstep
    refine hkeeps (Each.dropSettled (Each.foldl (fun r₁ j hr₁ => hr₁.modify ?_ j) _ hsame) now _ _)
    rintro j b ⟨a, ha, hkeep⟩
    exact ⟨a, ha, hkeep.trans ⟨rfl, rfl, rfl, rfl, rfl, rfl, rfl, rfl, rfl, Nat.le_refl _⟩⟩
  | hostCommits j =>
    obtain ⟨_, -, -, rfl⟩ := step_hostCommits hstep
    refine hkeeps (hsame.modify ?_ j)
    rintro j b ⟨a, ha, hkeep⟩
    exact ⟨a, ha, hkeep.trans ⟨rfl, rfl, rfl, rfl, rfl, rfl, rfl, rfl, rfl, Nat.le_refl _⟩⟩

/-! ## Room for the end -/

/-- There is room for the terminal event until it is recorded, and it is the last. -/
structure Counted (o : Options) (a : ActiveRun) : Prop where
  events : a.journal.terminal = false → a.emittedEvents + 1 ≤ o.maxRunEvents
  bytes : a.journal.terminal = false →
    a.emittedEventBytes + terminalEventReserveBytes ≤ o.maxRunEventBytes
  journal : a.journal.terminal = false → a.journal.bytes + terminalEventReserveBytes ≤ maxJournalBytes
  ordinals : a.recorded.map (fun e => e.event.ordinal) = List.range' a.firstOrdinal a.recorded.length
  nextOrdinal : a.nextOrdinal = a.firstOrdinal + a.recorded.length
  terminal : a.journal.terminal = a.recorded.any fun e => e.event.event.isTerminal
  last : ∀ e ∈ a.recorded.dropLast, e.event.event.isTerminal = false

theorem counted_start (runId : RunId) (bindingGeneration firstOrdinal connection : Nat) :
    Counted o (ActiveRun.start runId bindingGeneration firstOrdinal connection) where
  events _ := by
    have := o.two_le_maxRunEvents
    simp only [ActiveRun.start]
    omega
  bytes _ := by
    have := o.le_maxRunEventBytes
    simp only [ActiveRun.start]
    omega
  journal _ := (by decide : 0 + terminalEventReserveBytes ≤ maxJournalBytes)
  ordinals := rfl
  nextOrdinal := rfl
  terminal := rfl
  last _ he := nomatch he

theorem Counted.keeps (h : Counted o a) (hkeep : Keeps a a') : Counted o a' where
  events ht := by
    rw [hkeep.emittedEvents]
    exact h.events (hkeep.terminal ▸ ht)
  bytes ht := by
    rw [hkeep.emittedEventBytes]
    exact h.bytes (hkeep.terminal ▸ ht)
  journal ht := by
    have := h.journal (hkeep.terminal ▸ ht)
    have := hkeep.bytes
    omega
  ordinals := by rw [hkeep.recorded, hkeep.firstOrdinal, h.ordinals]
  nextOrdinal := by rw [hkeep.recorded, hkeep.firstOrdinal, hkeep.nextOrdinal, h.nextOrdinal]
  terminal := by rw [hkeep.terminal, hkeep.recorded, h.terminal]
  last := by
    rw [hkeep.recorded]
    exact h.last

/-- Of an event that is not terminal, each limit leaves the reserves. -/
theorem limits_of_not_terminal {event : HarnessEvent} (pending : Nat) (h : event.isTerminal = false) :
    (event ≠ .runUsage → ActiveRun.eventLimit o event pending = o.maxRunEvents - 2 - pending) ∧
    ActiveRun.eventLimit o event pending ≤ o.maxRunEvents - 1 ∧
    ActiveRun.byteLimit o event pending = o.maxRunEventBytes - terminalEventReserveBytes -
      (pending * requestCancellationReserveBytes : Nat) ∧
    ActiveRun.journalLimit event = maxJournalBytes - terminalEventReserveBytes := by
  unfold ActiveRun.eventLimit ActiveRun.byteLimit ActiveRun.journalLimit
  simp only [h, Bool.false_eq_true, if_false, and_true, Int.natCast_mul]
  refine ⟨fun hne => if_neg hne, ?_⟩
  split
  · exact Int.le_refl _
  · omega

theorem Counted.record (h : Counted o a) {event : HarnessEvent} {bytes : Nat}
    (hemit : a.emit o event bytes = .recorded a') : Counted o a' := by
  obtain ⟨-, hterminal, -, -, hevents, hbytes, hjournal, rfl⟩ := emit_eq_recorded.mp hemit
  have hnone : ∀ e ∈ a.recorded, e.event.event.isTerminal = false := by
    have hany := hterminal.symm.trans h.terminal
    simpa using hany.symm
  have hreserve : (a.record (a.outcome event) bytes).journal.terminal = false →
      (a.outcome event).isTerminal = false := by
    intro ht
    simpa [ActiveRun.record, hterminal] using ht
  refine ⟨fun ht => ?_, fun ht => ?_, fun ht => ?_, ?_, ?_, ?_, ?_⟩
  · obtain ⟨-, hle, -⟩ := limits_of_not_terminal (o := o)
      (((a.outcome event).pendingAfter a.pendingRequestIds).card) (hreserve ht)
    simp only [ActiveRun.record]
    omega
  · obtain ⟨-, -, hlimit, -⟩ := limits_of_not_terminal (o := o)
      (((a.outcome event).pendingAfter a.pendingRequestIds).card) (hreserve ht)
    rw [hlimit] at hbytes
    simp only [ActiveRun.record]
    omega
  · obtain ⟨-, -, -, hlimit⟩ := limits_of_not_terminal (o := o) 0 (hreserve ht)
    rw [hlimit] at hjournal
    have : terminalEventReserveBytes ≤ maxJournalBytes := by decide
    simp only [ActiveRun.record]
    omega
  · simp only [ActiveRun.record, List.map_append, h.ordinals, h.nextOrdinal, List.map_cons, List.map_nil,
      List.length_append, List.length_cons, List.length_nil, Nat.zero_add]
    rw [List.range'_concat, Nat.one_mul]
  · simp only [ActiveRun.record, h.nextOrdinal, List.length_append, List.length_cons, List.length_nil]
    omega
  · simp [ActiveRun.record, h.terminal]
  · simp only [ActiveRun.record, List.dropLast_concat]
    exact hnone

theorem Counted.emitReturns (h : Counted o a) (hreturns : a.emitReturns = some a') : Counted o a' := by
  unfold ActiveRun.emitReturns at hreturns
  split at hreturns
  · cases hreturns
  · obtain rfl := Option.some.inj hreturns
    exact ⟨h.events, h.bytes, h.journal, h.ordinals, h.nextOrdinal, h.terminal, h.last⟩

theorem counted_step {action : Action} (h : Each (fun _ a => Counted o a) r)
    (hstep : (machine o).step r action = some r') : Each (fun _ a => Counted o a) r' := by
  intro i a' ha'
  rcases step_active hstep ha' with ⟨runId, bindingGeneration, firstOrdinal, connection, rfl⟩ |
    ⟨a, ha, hkeep | ⟨event, bytes, -, hemit⟩ | ⟨-, hreturns⟩ | ⟨requestId, -, rfl⟩⟩
  · exact counted_start ..
  · exact (h i a ha).keeps hkeep
  · exact (h i a ha).record hemit
  · exact (h i a ha).emitReturns hreturns
  · have ha := h i a ha
    exact ⟨ha.events, ha.bytes, ha.journal, ha.ordinals, ha.nextOrdinal, ha.terminal, ha.last⟩

/-- A Run that goes on has room for its terminal event. -/
theorem Counted.emit_terminal (h : Counted o a) {event : HarnessEvent} {bytes : Nat}
    (hevent : event.isTerminal = true) (hrevoked : a.revoked = false) (hshutdown : a.shutdown = false)
    (hterminal : a.journal.terminal = false) (hbytes : bytes ≤ pendingAgentEventMaxSerializedBytes) :
    a.emit o event bytes = .recorded (a.record (a.outcome event) bytes) := by
  have hout : (a.outcome event).isTerminal = true := (isTerminal_outcome a event).trans hevent
  have hevents := h.events hterminal
  have hreserve := h.bytes hterminal
  have hroom := h.journal hterminal
  have hle : bytes ≤ terminalEventReserveBytes := hbytes
  refine emit_eq_recorded.mpr ⟨hrevoked, hterminal, by simp [hshutdown], hbytes, ?_, ?_, ?_, rfl⟩
  · rw [ActiveRun.eventLimit, if_pos hout]
    omega
  · rw [ActiveRun.byteLimit, if_pos hout]
    omega
  · rw [ActiveRun.journalLimit, if_pos hout]
    omega

/-! ## The Requests to be answered -/

/-- No event is emitted while an emit has yet to say that it opened or cancelled a
Request, no Request is resolved that an emit has yet to say is pending, and a usage
leaves its event to each Request that is pending. -/
def Timely (o : Options) (r : Runtime) : Action → Prop
  | .emits i event _ => ∀ a ∈ r.actives.get i, a.revoked = false → a.journal.terminal = false →
    (∀ pending ∈ a.inProgress, pending = a.pendingRequestIds) ∧
    (event = .runUsage → a.pendingRequestIds = ∅ ∨
      a.emittedEvents + 1 + 2 + a.pendingRequestIds.card ≤ o.maxRunEvents)
  | .resolvesRequest i requestId => ∀ a ∈ r.actives.get i, ∀ pending ∈ a.inProgress, requestId ∉ pending
  | _ => True

instance : DecidablePred (Timely o r) := fun action => by
  cases action <;> unfold Timely <;> infer_instance

/-- The last emit in progress says which Requests are still to be answered, and those
before it change nothing; and there is room to cancel each. -/
structure Tallied (o : Options) (a : ActiveRun) : Prop where
  written : a.inProgress.getLastD a.pendingRequestIds = a.outstanding
  unchanged : ∀ pending ∈ a.inProgress.dropLast, pending = a.pendingRequestIds
  events : a.journal.terminal = false → a.outstanding = ∅ ∨
    a.emittedEvents + 2 + a.outstanding.card ≤ o.maxRunEvents
  bytes : a.journal.terminal = false → a.emittedEventBytes + terminalEventReserveBytes +
    a.outstanding.card * requestCancellationReserveBytes ≤ o.maxRunEventBytes

theorem tallied_start (runId : RunId) (bindingGeneration firstOrdinal connection : Nat) :
    Tallied o (ActiveRun.start runId bindingGeneration firstOrdinal connection) where
  written := rfl
  unchanged _ h := nomatch h
  events _ := .inl rfl
  bytes _ := by
    have := o.le_maxRunEventBytes
    simp only [ActiveRun.start, Finset.card_empty]
    omega

theorem Tallied.keeps (h : Tallied o a) (hkeep : Keeps a a') : Tallied o a' where
  written := by rw [hkeep.inProgress, hkeep.pendingRequestIds, hkeep.outstanding, h.written]
  unchanged := by
    rw [hkeep.inProgress, hkeep.pendingRequestIds]
    exact h.unchanged
  events ht := by
    rw [hkeep.outstanding, hkeep.emittedEvents]
    exact h.events (hkeep.terminal ▸ ht)
  bytes ht := by
    rw [hkeep.outstanding, hkeep.emittedEventBytes]
    exact h.bytes (hkeep.terminal ▸ ht)

/-- When no emit has a change to say, the pending Requests are those to be answered. -/
theorem Tallied.pending_eq (h : Tallied o a) (hsame : ∀ pending ∈ a.inProgress, pending = a.pendingRequestIds) :
    a.pendingRequestIds = a.outstanding := by
  have hwritten := h.written
  rcases List.eq_nil_or_concat a.inProgress with hnil | ⟨init, last, hconcat⟩
  · rw [hnil] at hwritten
    exact hwritten
  · rw [hconcat, List.concat_eq_append, List.getLastD_concat] at hwritten
    rw [← hwritten]
    exact (hsame last (by simp [hconcat])).symm

theorem inProgress_record (event : HarnessEvent) (bytes : Nat) :
    (a.record event bytes).inProgress = a.inProgress ++ [event.pendingAfter a.pendingRequestIds] := by
  simp [ActiveRun.inProgress, ActiveRun.record]

theorem Tallied.record (h : Tallied o a) {event : HarnessEvent} {bytes : Nat}
    (hsame : ∀ pending ∈ a.inProgress, pending = a.pendingRequestIds)
    (husage : event = .runUsage → a.pendingRequestIds = ∅ ∨
      a.emittedEvents + 1 + 2 + a.pendingRequestIds.card ≤ o.maxRunEvents)
    (hemit : a.emit o event bytes = .recorded a') : Tallied o a' := by
  obtain ⟨-, hterminal, -, -, hevents, hbytes, -, rfl⟩ := emit_eq_recorded.mp hemit
  have hpending := h.pending_eq hsame
  have hnot : (a.record (a.outcome event) bytes).journal.terminal = false → event.isTerminal = false := by
    intro ht
    rw [← isTerminal_outcome a event]
    simpa [ActiveRun.record, hterminal] using ht
  refine ⟨?_, ?_, fun ht => ?_, fun ht => ?_⟩
  · rw [inProgress_record, List.getLastD_concat, hpending]
    rfl
  · rw [inProgress_record, List.dropLast_concat]
    exact hsame
  · have hevent := hnot ht
    rw [outcome_eq hevent, hpending] at hevents
    rw [outcome_eq hevent]
    simp only [ActiveRun.record]
    by_cases hu : event = .runUsage
    · subst hu
      rw [hpending] at husage
      rcases husage rfl with hempty | hle
      · exact .inl hempty
      · refine .inr ?_
        simp only [HarnessEvent.pendingAfter]
        omega
    · obtain ⟨hlimit, -⟩ := limits_of_not_terminal (o := o)
        ((event.pendingAfter a.outstanding).card) hevent
      rw [hlimit hu] at hevents
      exact .inr (by omega)
  · have hevent := hnot ht
    rw [outcome_eq hevent, hpending] at hbytes
    obtain ⟨-, -, hlimit, -⟩ := limits_of_not_terminal (o := o)
      ((event.pendingAfter a.outstanding).card) hevent
    rw [hlimit] at hbytes
    rw [outcome_eq hevent]
    simp only [ActiveRun.record]
    omega

theorem Tallied.emitReturns (h : Tallied o a) (hreturns : a.emitReturns = some a') : Tallied o a' := by
  unfold ActiveRun.emitReturns at hreturns
  split at hreturns
  · cases hreturns
  rename_i pending returning hreturning
  obtain rfl := Option.some.inj hreturns
  have hprogress : a.inProgress =
      pending :: (returning ++ a.journal.pumps.filterMap Pump.pendingAfter) := by
    rw [ActiveRun.inProgress, hreturning, List.cons_append]
  have hwritten := h.written
  have hunchanged := h.unchanged
  rw [hprogress] at hwritten hunchanged
  refine ⟨?_, ?_, h.events, h.bytes⟩
  · -- What it says is what the last emit says, if that is another.
    rw [List.getLastD_cons] at hwritten
    exact hwritten
  · intro other hother
    change other ∈ (returning ++ a.journal.pumps.filterMap Pump.pendingAfter).dropLast at hother
    generalize returning ++ a.journal.pumps.filterMap Pump.pendingAfter = rest at hother hunchanged
    cases rest with
    | nil => cases hother
    | cons next rest =>
      rw [List.dropLast_cons_cons] at hunchanged
      rw [hunchanged other (List.mem_cons_of_mem _ hother)]
      exact (hunchanged pending List.mem_cons_self).symm

theorem Tallied.resolveRequest (h : Tallied o a) {requestId : RequestId}
    (hfree : ∀ pending ∈ a.inProgress, requestId ∉ pending) : Tallied o (a.resolveRequest requestId) := by
  have hwritten := h.written
  have hcard : (a.outstanding.erase requestId).card ≤ a.outstanding.card := Finset.card_erase_le
  refine ⟨?_, ?_, fun ht => ?_, fun ht => ?_⟩
  · change a.inProgress.getLastD (a.pendingRequestIds.erase requestId) = a.outstanding.erase requestId
    rcases List.eq_nil_or_concat a.inProgress with hnil | ⟨init, last, hconcat⟩
    · rw [hnil] at hwritten ⊢
      exact congrArg (Finset.erase · requestId) hwritten
    · rw [hconcat, List.concat_eq_append, List.getLastD_concat] at hwritten ⊢
      rw [← hwritten, Finset.erase_eq_of_notMem (hfree last (by simp [hconcat]))]
  · intro pending hpending
    change pending = a.pendingRequestIds.erase requestId
    have hsame := h.unchanged pending hpending
    rw [← hsame, Finset.erase_eq_of_notMem (hfree pending (List.dropLast_subset _ hpending))]
  · rcases h.events ht with hempty | hle
    · exact .inl (by simp [ActiveRun.resolveRequest, hempty])
    · refine .inr ?_
      simp only [ActiveRun.resolveRequest]
      omega
  · have := h.bytes ht
    have := Nat.mul_le_mul_right requestCancellationReserveBytes hcard
    simp only [ActiveRun.resolveRequest]
    omega

theorem tallied_step {action : Action} (h : Each (fun _ a => Tallied o a) r) (htimely : Timely o r action)
    (hstep : (machine o).step r action = some r') : Each (fun _ a => Tallied o a) r' := by
  intro i a' ha'
  rcases step_active hstep ha' with ⟨runId, bindingGeneration, firstOrdinal, connection, rfl⟩ |
    ⟨a, ha, hkeep | ⟨event, bytes, rfl, hemit⟩ | ⟨-, hreturns⟩ | ⟨requestId, rfl, rfl⟩⟩
  · exact tallied_start ..
  · exact (h i a ha).keeps hkeep
  · obtain ⟨hrevoked, hterminal, -⟩ := emit_eq_recorded.mp hemit
    obtain ⟨hsame, husage⟩ := htimely a ha hrevoked hterminal
    exact (h i a ha).record hsame husage hemit
  · exact (h i a ha).emitReturns hreturns
  · exact (h i a ha).resolveRequest (htimely a ha)

/-- A Request that is to be answered can be cancelled. -/
theorem Tallied.emit_cancelled (h : Tallied o a) {requestId : RequestId} {bytes : Nat}
    (hsame : ∀ pending ∈ a.inProgress, pending = a.pendingRequestIds)
    (hrequest : requestId ∈ a.outstanding) (hbytes : bytes ≤ requestCancellationReserveBytes) :
    a.emit o (.requestCancelled requestId) bytes ≠ .refused .budget := by
  have hpending := h.pending_eq hsame
  have hcard := Finset.card_erase_of_mem hrequest
  have hpos := Finset.card_pos.mpr ⟨requestId, hrequest⟩
  have hevent : (HarnessEvent.requestCancelled requestId).isTerminal = false := rfl
  obtain ⟨hevents, -, hlimit, -⟩ := limits_of_not_terminal (o := o)
    (((HarnessEvent.requestCancelled requestId).pendingAfter a.pendingRequestIds).card) hevent
  replace hevents := hevents (by simp)
  have hafter : ((HarnessEvent.requestCancelled requestId).pendingAfter a.pendingRequestIds).card =
      a.outstanding.card - 1 := by
    rw [hpending]
    exact hcard
  unfold ActiveRun.emit
  split
  · simp
  rename_i hheard
  split
  · simp
  have hterminal : a.journal.terminal = false := by simp_all
  rw [outcome_eq hevent]
  dsimp only
  rw [hevents, hlimit, hafter]
  split
  · simp
  split
  · rename_i hover
    exfalso
    rcases h.events hterminal with hempty | hle
    · simp [hempty] at hrequest
    · have hroom := h.bytes hterminal
      obtain ⟨n, hn⟩ : ∃ n, a.outstanding.card = n + 1 := ⟨_, (Nat.sub_add_cancel hpos).symm⟩
      rw [hn, Nat.add_mul] at hroom
      rw [hn, Nat.add_sub_cancel] at hover
      rw [hn] at hle
      omega
  · split
    · simp
    · simp

/-! ## Runs -/

theorem each_initial (P : Nat → ActiveRun → Prop) : Each P initial := fun _ _ h => nomatch h

/-- In every run, a Run that goes on can record its terminal event, its events are
numbered in order, and the terminal event is the last. If the run is timely, a Run's
pending Requests are those to be answered whenever no emit of it is in progress, and
each of those can be cancelled. -/
theorem run_can_end (o : Options) (as : List Action) (r : Runtime)
    (hrun : (machine o).run initial as = some r) (i : Nat) (a : ActiveRun)
    (ha : r.actives.get i = some a) :
    (∀ event bytes, event.isTerminal = true → bytes ≤ pendingAgentEventMaxSerializedBytes →
      a.revoked = false → a.shutdown = false → a.journal.terminal = false →
      ∃ a', a.emit o event bytes = .recorded a') ∧
    a.recorded.map (fun e => e.event.ordinal) = List.range' a.firstOrdinal a.recorded.length ∧
    (∀ before e after, a.recorded = before ++ e :: after → e.event.event.isTerminal = true → after = []) ∧
    ((machine o).Meets (Timely o) initial as →
      (a.inProgress = [] → a.pendingRequestIds = a.outstanding) ∧
      ∀ requestId ∈ a.outstanding, ∀ bytes ≤ requestCancellationReserveBytes,
        Timely o r (.emits i (.requestCancelled requestId) bytes) →
        a.emit o (.requestCancelled requestId) bytes ≠ .refused .budget) := by
  have hcounted := (machine o).invariant (P := Each fun _ a => Counted o a) (each_initial _)
    (fun _ _ _ h hstep => counted_step h hstep) hrun i a ha
  refine ⟨fun event bytes hevent hbytes hrevoked hshutdown hterminal =>
    ⟨_, hcounted.emit_terminal hevent hrevoked hshutdown hterminal hbytes⟩, hcounted.ordinals, ?_, ?_⟩
  · intro before e after hrecorded he
    by_contra hafter
    have hlast := hcounted.last e (by
      rw [hrecorded, List.dropLast_append_of_ne_nil (by simp)]
      refine List.mem_append_right _ ?_
      obtain ⟨next, rest, rfl⟩ := List.exists_cons_of_ne_nil hafter
      rw [List.dropLast_cons_cons]
      exact List.mem_cons_self)
    rw [he] at hlast
    cases hlast
  · intro htimely
    have htallied := (machine o).run_invariant (P := Each fun _ a => Tallied o a) (each_initial _)
      (fun _ _ _ h ht hstep => tallied_step h ht hstep) htimely hrun i a ha
    refine ⟨fun hnone => htallied.pending_eq (by simp [hnone]), ?_⟩
    intro requestId hrequest bytes hbytes htime
    cases hover : a.revoked || a.journal.terminal with
    | true =>
      unfold ActiveRun.emit
      rw [hover]
      simp
    | false =>
      obtain ⟨hrevoked, hterminal⟩ := Bool.or_eq_false_iff.mp hover
      exact htallied.emit_cancelled (htime a ha hrevoked hterminal).1 hrequest hbytes

/-- Small limits. -/
def smallOptions : Options where
  maxRunEvents := 6
  two_le_maxRunEvents := by decide
  maxRunEventBytes := terminalEventReserveBytes * 2
  le_maxRunEventBytes := Nat.le_refl _

def request : RequestId := ⟨"request"⟩

/-- A Run asks a Request, which is answered, and ends. -/
def askingRun : List Action :=
  [.attached [], .admits ⟨"run"⟩ 1 0,
    .emits 0 (.requestOpened request) 300, .pumpStarts 0, .sendSettles 0 true, .emitReturns 0,
    .resolvesRequest 0 request, .emits 0 .runCompleted 300]

theorem run_can_end_run : ∃ r, (machine smallOptions).run initial askingRun = some r ∧
    ∃ a, r.actives.get 0 = some a ∧
    ((∀ event bytes, event.isTerminal = true → bytes ≤ pendingAgentEventMaxSerializedBytes →
      a.revoked = false → a.shutdown = false → a.journal.terminal = false →
      ∃ a', a.emit smallOptions event bytes = .recorded a') ∧
    a.recorded.map (fun e => e.event.ordinal) = List.range' a.firstOrdinal a.recorded.length ∧
    (∀ before e after, a.recorded = before ++ e :: after → e.event.event.isTerminal = true → after = []) ∧
    ((machine smallOptions).Meets (Timely smallOptions) initial askingRun →
      (a.inProgress = [] → a.pendingRequestIds = a.outstanding) ∧
      ∀ requestId ∈ a.outstanding, ∀ bytes ≤ requestCancellationReserveBytes,
        Timely smallOptions r (.emits 0 (.requestCancelled requestId) bytes) →
        a.emit smallOptions (.requestCancelled requestId) bytes ≠ .refused .budget)) := by
  obtain ⟨r, hrun, hsome⟩ := (machine smallOptions).exists_run_of_any
    (P := fun r => (r.actives.get 0).isSome = true) (s := initial) (l := askingRun) (by decide +kernel)
  obtain ⟨a, ha⟩ := Option.isSome_iff_exists.mp hsome
  exact ⟨r, hrun, a, ha, run_can_end smallOptions askingRun r hrun 0 a ha⟩

/-- A Request is answered while the network has a later event of its Run. -/
def resurrectingRun : List Action :=
  [.attached [], .admits ⟨"run"⟩ 1 0,
    .emits 0 (.requestOpened request) 300, .pumpStarts 0, .sendSettles 0 true, .emitReturns 0,
    .emits 0 (.other "message.completed") 300, .pumpStarts 0, .resolvesRequest 0 request,
    .sendSettles 0 true, .emitReturns 0]

/-- The emit of that event says the answered Request is pending. -/
theorem answered_request_pending : ∃ r, (machine smallOptions).run initial resurrectingRun = some r ∧
    ∃ a ∈ r.actives.get 0, a.inProgress = [] ∧ request ∈ a.pendingRequestIds ∧
      request ∉ a.outstanding :=
  (machine smallOptions).exists_run_of_any (by decide +kernel)

end Opensteer.RunnerRuntime
