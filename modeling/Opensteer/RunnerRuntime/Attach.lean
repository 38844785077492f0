import Opensteer.RunnerRuntime.Journal

/-!
# Connections replaced

What each step does to a Run's journal, between the steps that replace the connection
(`step_change`), and what an attach answer does: the Runs it names go on where the Host
says, and the Runs it does not are revoked (`get_attach`).

A Run that has ended is forgotten when it is revoked, not stopped: a pump of it that
waits for a send on an older connection finds the connection that is current by then.
Where no attach answer leaves such a pump with an event to send (`Answered`), a Run's
events are sent on no connection but those where it started (`Attached`).
-/

namespace Opensteer.RunnerRuntime

open Opensteer.RunnerRuntime.Runtime

variable {o : Options} {r r' : Runtime} {connection : Option Nat} {connections c i : Nat}
  {a a' : ActiveRun} {executing : Prop}

/-! ## What is done to a Run -/

/-- The Run is as it was, but for what its journal and its sends do not depend on. -/
structure Marks (a a' : ActiveRun) : Prop where
  runId : a'.runId = a.runId
  firstOrdinal : a'.firstOrdinal = a.firstOrdinal
  nextOrdinal : a'.nextOrdinal = a.nextOrdinal
  recorded : a'.recorded = a.recorded
  committed : a'.committed = a.committed
  sends : a'.sends = a.sends
  starts : a'.starts = a.starts
  failedOn : a'.failedOn = a.failedOn
  revoked : a'.revoked = false → a.revoked = false
  journal : ∃ bound, a'.journal = { a.journal with sessionBound := bound }

/-- One thing done to a Run while the connection stays. -/
inductive Change (connection : Option Nat) (connections : Nat) (executing : Prop) :
    ActiveRun → ActiveRun → Prop
  | records {a : ActiveRun} (event : HarnessEvent) (bytes : Nat) (h : executing) :
    Change connection connections executing a (a.record event bytes)
  | queues {a : ActiveRun} (pump : Pump) (h : executing) :
    Change connection connections executing a (a.addPump pump)
  | pumpStarts {a a' : ActiveRun} (h : a.pumpStarts connection = some a') :
    Change connection connections executing a a'
  | sendSettles {a a' : ActiveRun} (ok : Bool) (h : a.sendSettles connection ok = some a') :
    Change connection connections executing a a'
  | discards {a : ActiveRun} (below : Nat) (h : below ≤ a.committed) :
    Change connection connections executing a { a with journal := a.journal.discard below }
  | commits {a : ActiveRun} (s : Send) (hs : s ∈ a.sends) (hlast : s.connection + 1 = connections)
      (hordinal : s.ordinal = a.committed) :
    Change connection connections executing a { a with committed := a.committed + 1 }
  | marks {a a' : ActiveRun} (h : Marks a a') : Change connection connections executing a a'

/-- What is done to a Run in a step. -/
abbrev Changes (connection : Option Nat) (connections : Nat) (executing : Prop) :
    ActiveRun → ActiveRun → Prop :=
  Relation.ReflTransGen (Change connection connections executing)

theorem Journaled.marks (h : Journaled connection connections a) (hmarks : Marks a a') :
    Journaled connection connections a' := by
  obtain ⟨bound, hjournal⟩ := hmarks.journal
  refine ⟨⟨?_, ?_, ?_, ?_, ?_, ?_, ?_⟩, ⟨?_, ?_, ?_, ?_, ?_, ?_, ?_⟩, fun c hc n hn => ?_⟩
  · rw [hjournal, hmarks.firstOrdinal]; exact h.first_le
  · rw [hjournal, hmarks.committed]; exact h.covered_le
  · rw [hmarks.committed, hmarks.nextOrdinal]; exact h.committed_le
  · rw [hmarks.recorded, hmarks.firstOrdinal]; exact h.ordinals
  · rw [hmarks.nextOrdinal, hmarks.firstOrdinal, hmarks.recorded]; exact h.nextOrdinal
  · rw [hjournal, hmarks.recorded]; exact h.entries
  · rw [hjournal]; exact h.bytes
  · rw [hjournal, hmarks.starts]; exact h.starts
  · rw [hmarks.sends, hmarks.nextOrdinal]; exact h.bound
  · rw [hjournal, hmarks.sends]; exact h.pending
  · rw [hmarks.sends, hmarks.failedOn]; exact h.failed
  · rw [hmarks.starts, hmarks.sends]; exact h.numbered
  · rw [hjournal]; exact h.busy
  · rw [hjournal]; exact h.on
  · rw [hmarks.starts] at hn
    have hcurrent := h.current c hc n hn
    refine ⟨?_, fun hr => ?_, fun hr => ?_, ?_⟩
    · rw [hjournal, hmarks.sends]; exact hcurrent.cursor
    · rw [hjournal]; exact hcurrent.stale (hmarks.revoked hr)
    · rw [hjournal, hmarks.failedOn]; exact hcurrent.quiet (hmarks.revoked hr)
    · rw [hjournal, hmarks.failedOn, hmarks.committed]; exact hcurrent.committed

theorem Journaled.change (h : Journaled connection connections a)
    (hconnection : ∀ c ∈ connection, c + 1 = connections)
    (hchange : Change connection connections executing a a') : Journaled connection connections a' := by
  cases hchange with
  | records event bytes _ => exact h.record event bytes
  | queues pump _ => exact h.addPump pump
  | pumpStarts hstep => exact h.pumpStarts hconnection hstep
  | sendSettles ok hstep => exact h.sendSettles hconnection hstep
  | discards below hbelow => exact h.discard hbelow
  | commits s hs hlast hordinal => exact h.commits hconnection hs hlast hordinal
  | marks hmarks => exact h.marks hmarks

theorem Journaled.changes (h : Journaled connection connections a)
    (hconnection : ∀ c ∈ connection, c + 1 = connections)
    (hchanges : Changes connection connections executing a a') : Journaled connection connections a' := by
  induction hchanges with
  | refl => exact h
  | tail _ hchange ih => exact ih.change hconnection hchange

/-! ## Where its events are sent -/

/-- The pumps that have not started. -/
def ActiveRun.unstarted (a : ActiveRun) : List Pump :=
  if a.journal.sending = .idle then a.journal.pumps else a.journal.pumps.tail

/-- The Run's events are sent on the connections where it started, and it has none to send
on the current one if it has not started there. -/
structure Attached (connection : Option Nat) (executing : Prop) (a : ActiveRun) : Prop where
  sent : ∀ s ∈ a.sends, (a.starts.get s.connection).isSome
  detached : ∀ c ∈ connection, a.starts.get c = none → a.revoked = false →
    a.journal.events.get a.journal.sendNext = none ∨ (a.unstarted = [] ∧ a.journal.sending.on ≠ some c)
  running : executing → a.revoked = false → ∀ c ∈ connection, (a.starts.get c).isSome

theorem attached_start (runId : RunId) (bindingGeneration firstOrdinal c : Nat) :
    Attached (some c) executing (ActiveRun.start runId bindingGeneration firstOrdinal c) where
  sent _ h := nomatch h
  detached _ _ _ _ := .inl rfl
  running _ _ c' hc := by
    obtain rfl := Option.some.inj hc
    simp [ActiveRun.start]

theorem Attached.finish (h : Attached connection executing a) : Attached connection executing a.finish := by
  cases hpumps : a.journal.pumps with
  | nil =>
    have hfinish : a.finish = a := by
      unfold ActiveRun.finish
      rw [hpumps]
    rwa [hfinish]
  | cons pump pumps =>
    rw [finish_eq hpumps]
    refine ⟨h.sent, fun c hc hn hr => ?_, h.running⟩
    rcases h.detached c hc hn hr with hnone | ⟨hunstarted, -⟩
    · exact .inl hnone
    · refine .inr ⟨?_, by simp [Sending.on]⟩
      unfold ActiveRun.unstarted at hunstarted
      rw [hpumps] at hunstarted
      split at hunstarted
      · cases hunstarted
      · exact hunstarted

theorem Attached.sendOn (h : Attached (some c) executing a)
    (hnone : a.starts.get c = none → a.revoked = false → a.journal.events.get a.journal.sendNext = none) :
    Attached (some c) executing (a.sendOn (some c) c) := by
  unfold ActiveRun.sendOn
  simp only [ne_eq, not_true_eq_false, decide_false, Bool.false_or]
  split
  · exact h.finish
  · rename_i hrevoked
    split
    · exact h.finish
    · rename_i hsome
      have hstarts : (a.starts.get c).isSome := by
        rw [← Option.ne_none_iff_isSome]
        intro hn
        rw [hnone hn (by simpa using hrevoked)] at hsome
        cases hsome
      refine ⟨fun s hs => ?_, fun c' hc hn => ?_, h.running⟩
      · rcases List.mem_append.mp hs with hs | hs
        · exact h.sent s hs
        · obtain rfl := List.mem_singleton.mp hs
          exact hstarts
      · obtain rfl := Option.some.inj hc
        rw [hn] at hstarts
        cases hstarts

theorem Attached.pumpStarts (h : Attached connection executing a)
    (hstep : a.pumpStarts connection = some a') : Attached connection executing a' := by
  unfold ActiveRun.pumpStarts at hstep
  split at hstep
  · cases hstep
  rename_i hready
  rw [not_or, ne_eq, not_not] at hready
  obtain ⟨hidle, hpumps⟩ := hready
  split at hstep
  · obtain rfl := Option.some.inj hstep
    exact h.finish
  rename_i c
  -- This pump has yet to start, so where the Run has not it has nothing to send.
  have hnone : a.starts.get c = none → a.revoked = false →
      a.journal.events.get a.journal.sendNext = none := by
    intro hn hr
    rcases h.detached c rfl hn hr with hnone | ⟨hunstarted, -⟩
    · exact hnone
    · rw [ActiveRun.unstarted, if_pos hidle] at hunstarted
      exact absurd hunstarted hpumps
  split at hstep
  · obtain rfl := Option.some.inj hstep
    exact h.finish
  split at hstep
  · obtain rfl := Option.some.inj hstep
    refine ⟨h.sent, fun c' hc hn hr => ?_, h.running⟩
    obtain rfl := Option.some.inj hc
    exact .inl (hnone hn hr)
  · obtain rfl := Option.some.inj hstep
    exact h.sendOn hnone

theorem Attached.sendSettles {ok : Bool} (hsent : Sent connections a) (h : Attached connection executing a)
    (hstep : a.sendSettles connection ok = some a') : Attached connection executing a' := by
  unfold ActiveRun.sendSettles at hstep
  split at hstep
  · cases hstep
  · rename_i on hsending
    split at hstep
    · obtain rfl := Option.some.inj hstep
      exact Attached.finish ⟨h.sent, h.detached, h.running⟩
    split at hstep
    · obtain rfl := Option.some.inj hstep
      exact h.finish
    · rename_i hcurrent
      rw [ne_eq, not_not] at hcurrent
      subst hcurrent
      obtain rfl := Option.some.inj hstep
      refine Attached.sendOn ⟨h.sent, h.detached, h.running⟩ fun hn hr => ?_
      rcases h.detached on rfl hn hr with hnone | ⟨-, hon⟩
      · exact hnone
      · rw [hsending] at hon
        exact absurd rfl hon
  · rename_i on ordinal hsending
    have hsettled : Attached connection executing { a with sends := a.sends.map (Send.settle ok) } := by
      refine ⟨fun s hs => ?_, h.detached, h.running⟩
      obtain ⟨t, ht, rfl⟩ := List.mem_map.mp hs
      rw [(settle_eq ok t).2.1]
      exact h.sent t ht
    dsimp only at hstep
    split at hstep
    · obtain rfl := Option.some.inj hstep
      exact Attached.finish ⟨hsettled.sent, hsettled.detached, hsettled.running⟩
    split at hstep
    · obtain rfl := Option.some.inj hstep
      exact hsettled.finish
    · rename_i hcurrent
      rw [ne_eq, not_not] at hcurrent
      subst hcurrent
      obtain rfl := Option.some.inj hstep
      -- It started on the connection that the send was on.
      have hstarts : (a.starts.get on).isSome := by
        obtain ⟨done, hdone, -⟩ := hsent.pending
        rw [hsending] at hdone
        exact h.sent ⟨on, ordinal, .pending⟩ (by rw [hdone]; simp [Sending.inFlight])
      refine Attached.sendOn ⟨hsettled.sent, fun c hc hn => ?_, h.running⟩ fun hn => ?_
      · obtain rfl := Option.some.inj hc
        rw [hn] at hstarts
        cases hstarts
      · rw [hn] at hstarts
        cases hstarts

theorem Attached.marks (h : Attached connection executing a) (hmarks : Marks a a') :
    Attached connection executing a' := by
  obtain ⟨bound, hjournal⟩ := hmarks.journal
  refine ⟨?_, fun c hc hn hr => ?_, fun he hr => ?_⟩
  · rw [hmarks.sends, hmarks.starts]; exact h.sent
  · rw [hmarks.starts] at hn
    rw [ActiveRun.unstarted, hjournal]
    exact h.detached c hc hn (hmarks.revoked hr)
  · rw [hmarks.starts]; exact h.running he (hmarks.revoked hr)

theorem Attached.discard (hheld : Held a) (h : Attached connection executing a) (below : Nat) :
    Attached connection executing { a with journal := a.journal.discard below } := by
  have hdiscards := discards_discard below a.journal
  refine ⟨h.sent, fun c hc hn hr => ?_, h.running⟩
  rw [ActiveRun.unstarted]
  simp only [hdiscards.sending, hdiscards.pumps, hdiscards.sendNext]
  exact (h.detached c hc hn hr).imp_left (get_discard_eq_none hheld)

theorem Attached.change (hjournaled : Journaled connection connections a)
    (h : Attached connection executing a) (hchange : Change connection connections executing a a') :
    Attached connection executing a' := by
  -- An executing Run that is not revoked has started on the current connection.
  have hrunning : executing → a.revoked = false → ∀ c ∈ connection, a.starts.get c ≠ none :=
    fun he hr c hc => Option.ne_none_iff_isSome.mpr (h.running he hr c hc)
  cases hchange with
  | records event bytes he => exact ⟨h.sent, fun c hc hn hr => absurd hn (hrunning he hr c hc), h.running⟩
  | queues pump he => exact ⟨h.sent, fun c hc hn hr => absurd hn (hrunning he hr c hc), h.running⟩
  | pumpStarts hstep => exact h.pumpStarts hstep
  | sendSettles ok hstep => exact h.sendSettles hjournaled.toSent hstep
  | discards below _ => exact h.discard hjournaled.toHeld below
  | commits s _ _ _ => exact ⟨h.sent, h.detached, h.running⟩
  | marks hmarks => exact h.marks hmarks

theorem Attached.changes (hjournaled : Journaled connection connections a)
    (hconnection : ∀ c ∈ connection, c + 1 = connections) (h : Attached connection executing a)
    (hchanges : Changes connection connections executing a a') : Attached connection executing a' := by
  induction hchanges with
  | refl => exact h
  | tail hchanges hchange ih => exact ih.change (hjournaled.changes hconnection hchanges) hchange

theorem runId_finish (a : ActiveRun) : a.finish.runId = a.runId := by
  unfold ActiveRun.finish
  split <;> rfl

theorem runId_sendOn (a : ActiveRun) (connection : Option Nat) (on : Nat) :
    (a.sendOn connection on).runId = a.runId := by
  unfold ActiveRun.sendOn
  split
  · exact runId_finish a
  · split
    · exact runId_finish a
    · rfl

theorem Change.runId (h : Change connection connections executing a a') : a'.runId = a.runId := by
  cases h with
  | records event bytes _ => rfl
  | queues pump _ => rfl
  | pumpStarts hstep =>
    unfold ActiveRun.pumpStarts at hstep
    split at hstep
    · cases hstep
    split at hstep
    · exact Option.some.inj hstep ▸ runId_finish a
    split at hstep
    · exact Option.some.inj hstep ▸ runId_finish a
    split at hstep
    · exact Option.some.inj hstep ▸ rfl
    · exact Option.some.inj hstep ▸ runId_sendOn ..
  | sendSettles ok hstep =>
    unfold ActiveRun.sendSettles at hstep
    split at hstep
    · cases hstep
    · split at hstep
      · exact Option.some.inj hstep ▸ runId_finish _
      split at hstep
      · exact Option.some.inj hstep ▸ runId_finish _
      · exact Option.some.inj hstep ▸ runId_sendOn ..
    · dsimp only at hstep
      split at hstep
      · exact Option.some.inj hstep ▸ runId_finish _
      split at hstep
      · exact Option.some.inj hstep ▸ runId_finish _
      · exact Option.some.inj hstep ▸ runId_sendOn ..
  | discards below _ => rfl
  | commits s _ _ _ => rfl
  | marks h => exact h.runId

theorem Changes.runId (h : Changes connection connections executing a a') : a'.runId = a.runId := by
  induction h with
  | refl => rfl
  | tail _ hchange ih => exact hchange.runId.trans ih

/-! ## Steps between attach answers -/

/-- Another state of the runtime on the same connection, with the Runs changed. -/
structure Continues (r r₁ : Runtime) : Prop where
  connection : r₁.connection = r.connection
  connections : r₁.connections = r.connections
  admitted : r₁.admitted = r.admitted
  runs : ∀ runId i, r₁.runs.get runId = some i → r.runs.get runId = some i
  changed : Each (fun i a' => ∃ a, r.actives.get i = some a ∧
    Changes r.connection r.connections (r.runs.get a.runId = some i) a a') r₁

variable {r₁ : Runtime}

theorem Continues.refl (r : Runtime) : Continues r r :=
  ⟨rfl, rfl, rfl, fun _ _ h => h, fun _ a ha => ⟨a, ha, .refl⟩⟩

theorem Continues.set (h : Continues r r₁) (ha : r.actives.get i = some a)
    (hchanges : Changes r.connection r.connections (r.runs.get a.runId = some i) a a') :
    Continues r { r₁ with actives := r₁.actives.set i a' } :=
  ⟨h.connection, h.connections, h.admitted, h.runs, h.changed.set ⟨a, ha, hchanges⟩⟩

theorem Continues.modify (h : Continues r r₁) (i : Nat) {f : ActiveRun → ActiveRun}
    (hf : ∀ a, Marks a (f a)) : Continues r (r₁.modify i f) :=
  ⟨h.connection, h.connections, h.admitted, h.runs,
    h.changed.modify (fun _ a' ⟨a, ha, hchanges⟩ => ⟨a, ha, hchanges.tail (.marks (hf a'))⟩) i⟩

theorem Continues.foldl {β : Type} {g : Runtime → β → Runtime}
    (hg : ∀ r₁ b, Continues r r₁ → Continues r (g r₁ b)) (bs : List β) (h : Continues r r₁) :
    Continues r (bs.foldl g r₁) := by
  induction bs generalizing r₁ with
  | nil => exact h
  | cons b bs ih => exact ih (hg r₁ b h)

theorem Continues.settled (h : Continues r r₁) (settledRuns : OrderedMap RunId Nat) :
    Continues r { r₁ with settledRuns } :=
  ⟨h.connection, h.connections, h.admitted, h.runs, h.changed⟩

theorem Continues.releaseIfSettled {t : Runtime} (h : Continues r t) (i : Nat) :
    Continues r (t.releaseIfSettled i) := by
  unfold Runtime.releaseIfSettled
  split
  · exact h
  · split
    · exact h.settled _
    · exact h

theorem marks_revoked (a : ActiveRun) : Marks a { a with revoked := true } :=
  ⟨rfl, rfl, rfl, rfl, rfl, rfl, rfl, rfl, fun h => (nomatch h), ⟨_, rfl⟩⟩

theorem Continues.revokeRuns (h : Continues r r₁) (runIds : List RunId) :
    Continues r (r₁.revokeRuns runIds) := by
  refine Continues.foldl (fun r₁ runId h => ?_) runIds h
  unfold revokeRun
  dsimp only
  split
  · exact h.settled _
  · exact (h.settled (r₁.settledRuns.delete runId)).modify _ marks_revoked

theorem Continues.dropSettled (h : Continues r r₁) (now : Nat) (settled : List (RunId × Nat)) (bytes : Nat) :
    Continues r (dropSettled now settled bytes r₁) := by
  induction settled generalizing r₁ bytes with
  | nil => exact h
  | cons e settled ih =>
    unfold Runtime.dropSettled
    split
    · exact h
    · split
      · exact h
      · exact ih (h.settled _) _

theorem Continues.advance {f : ActiveRun → Option Nat → Option ActiveRun}
    (hf : ∀ a a', f a r.connection = some a' →
      Change r.connection r.connections (r.runs.get a.runId = some i) a a')
    (hstep : r.advance i f = some r') : Continues r r' := by
  unfold Runtime.advance at hstep
  split at hstep
  · cases hstep
  rename_i a ha
  obtain ⟨a', ha', rfl⟩ := Option.map_eq_some_iff.mp hstep
  have hset := (Continues.refl r).set ha (.single (hf a a' ha'))
  dsimp only
  split
  · exact hset.releaseIfSettled i
  · exact hset

theorem Continues.ofExecuting {f : ActiveRun → Option ActiveRun}
    (hf : ∀ a a', f a = some a' → r.runs.get a.runId = some i →
      Changes r.connection r.connections (r.runs.get a.runId = some i) a a')
    (hstep : r.ofExecuting i f = some r') : Continues r r' := by
  obtain ⟨a, a', ha, hexecuting, ha', rfl⟩ := ofExecuting_cases hstep
  exact (Continues.refl r).set ha (hf a a' ha' (of_decide_eq_true hexecuting))

/-- What the Host acknowledges of a Run it has committed. -/
theorem Continues.acknowledge {acks : List (RunId × Int × Bool)} (hacks : r.Acknowledges acks) :
    Continues r (r.acknowledge acks) := by
  have hloop : ∀ (rest : List (RunId × Int × Bool)) (r₁ : Runtime), rest ⊆ acks → Continues r r₁ →
      (∀ runId i, r₁.find runId = some i → r.find runId = some i) →
      Each (fun i a' => ∃ a, r.actives.get i = some a ∧ a'.committed = a.committed) r₁ →
      Continues r (rest.foldl acknowledgeRun r₁) := by
    intro rest
    induction rest with
    | nil => exact fun _ _ h _ _ => h
    | cons ack rest ih =>
      intro r₁ hsub h hfind hcommitted
      obtain ⟨hack, hsub⟩ := List.cons_subset.mp hsub
      refine ih _ hsub ?_ ?_ ?_
      · unfold acknowledgeRun
        split
        · exact h
        · rename_i i hi
          refine Continues.releaseIfSettled (t := r₁.modify i _)
            ⟨h.connection, h.connections, h.admitted, h.runs, ?_⟩ i
          intro j a' ha'
          simp only [Runtime.modify, OrderedMap.get_modify] at ha'
          split at ha'
          · rename_i hj
            subst hj
            obtain ⟨b, hb, rfl⟩ := Option.map_eq_some_iff.mp ha'
            obtain ⟨a, ha, hchanges⟩ := h.changed i b hb
            obtain ⟨_, ha₂, hsame⟩ := hcommitted i b hb
            obtain rfl := Option.some.inj (ha.symm.trans ha₂)
            have hlt := hacks ack hack i (hfind _ _ hi) a ha
            refine ⟨a, ha, (hchanges.tail (.discards (ack.2.1 + 1).toNat (by omega))).tail (.marks ?_)⟩
            exact ⟨rfl, rfl, rfl, rfl, rfl, rfl, rfl, rfl, fun h => h, ⟨_, rfl⟩⟩
          · exact h.changed j a' ha'
      · intro runId j hj
        refine hfind runId j ?_
        unfold acknowledgeRun at hj
        split at hj
        · exact hj
        · unfold Runtime.releaseIfSettled at hj
          split at hj
          · exact hj
          · split at hj
            · simp only [Runtime.find, Runtime.modify, OrderedMap.get_delete] at hj ⊢
              split at hj
              · rw [Option.or_none] at hj
                rw [hj, Option.some_or]
              · exact hj
            · exact hj
      · unfold acknowledgeRun
        split
        · exact hcommitted
        · refine Each.releaseIfSettled (hcommitted.modify ?_ _) _
          rintro j b ⟨a, ha, hsame⟩
          exact ⟨a, ha, hsame⟩
  exact hloop acks r (List.Subset.refl _) (.refl r) (fun _ _ h => h) fun _ a ha => ⟨a, ha, rfl⟩

/-- A step that replaces no connection and admits no Run. -/
def continues : Action → Bool
  | .admits .. | .attached _ | .connectionLost _ => false
  | _ => true

theorem step_continues {action : Action} (hcontinues : continues action = true)
    (hstep : (machine o).step r action = some r') : Continues r r' := by
  cases action with
  | admits _ _ _ => cases hcontinues
  | attached _ => cases hcontinues
  | connectionLost _ => cases hcontinues
  | emits j event bytes =>
    obtain ⟨a, ha, ⟨a', hemit, hexecuting, rfl⟩ | rfl⟩ := step_emits hstep
    · obtain ⟨-, -, -, -, -, -, -, rfl⟩ := emit_eq_recorded.mp hemit
      exact (Continues.refl r).set ha (.single (.records _ _ (of_decide_eq_true hexecuting)))
    · exact .refl r'
  | emitReturns j =>
    obtain ⟨a, a', ha, hreturns, rfl⟩ := step_emitReturns hstep
    refine (Continues.refl r).set ha (.single (.marks ?_))
    unfold ActiveRun.emitReturns at hreturns
    split at hreturns
    · cases hreturns
    · obtain rfl := Option.some.inj hreturns
      exact ⟨rfl, rfl, rfl, rfl, rfl, rfl, rfl, rfl, fun h => h, ⟨_, rfl⟩⟩
  | resolvesRequest j requestId =>
    refine Continues.ofExecuting (fun a a' ha' _ => .single (.marks ?_)) hstep
    obtain rfl := Option.some.inj ha'
    exact ⟨rfl, rfl, rfl, rfl, rfl, rfl, rfl, rfl, fun h => h, ⟨_, rfl⟩⟩
  | bindsSession j =>
    refine Continues.ofExecuting (fun a a' ha' he => ?_) hstep
    obtain rfl := Option.some.inj ha'
    refine .tail (.single (.marks ?_)) (.queues ⟨none, false⟩ he)
    exact ⟨rfl, rfl, rfl, rfl, rfl, rfl, rfl, rfl, fun h => h, ⟨_, rfl⟩⟩
  | flushes j =>
    refine Continues.ofExecuting (fun a a' ha' he => ?_) hstep
    split at ha'
    · obtain rfl := Option.some.inj ha'
      exact .single (.queues _ he)
    · cases ha'
  | pumpStarts j => exact Continues.advance (fun a a' h => .pumpStarts h) hstep
  | sendSettles j ok =>
    exact Continues.advance (f := fun a connection => a.sendSettles connection ok)
      (fun a a' h => .sendSettles ok h) hstep
  | acked acks =>
    change (if r.Acknowledges acks then some (r.acknowledge acks) else none) = some r' at hstep
    split at hstep
    · rename_i hacks
      obtain rfl := Option.some.inj hstep
      exact .acknowledge hacks
    · cases hstep
  | revoked runIds =>
    obtain rfl := Option.some.inj hstep
    exact (Continues.refl r).revokeRuns runIds
  | shutsDown =>
    obtain rfl := Option.some.inj hstep
    refine Continues.foldl (fun r₁ j h => h.modify j fun a => ?_) _ (.refl r)
    exact ⟨rfl, rfl, rfl, rfl, rfl, rfl, rfl, rfl, fun h => h, ⟨_, rfl⟩⟩
  | settles j now =>
    change r.settles j now = some r' at hstep
    unfold Runtime.settles at hstep
    split at hstep
    · cases hstep
    rename_i a ha
    split at hstep
    · have hended : Continues r { r with runs := r.runs.delete a.runId } := by
        refine ⟨rfl, rfl, rfl, fun runId j hj => ?_, (Continues.refl r).changed⟩
        rw [OrderedMap.get_delete] at hj
        split at hj
        · cases hj
        · exact hj
      dsimp only at hstep
      split at hstep
      · obtain rfl := Option.some.inj hstep
        refine (hended.modify j fun a => ?_).settled _
        exact ⟨rfl, rfl, rfl, rfl, rfl, rfl, rfl, rfl, fun h => h, ⟨_, rfl⟩⟩
      · obtain rfl := Option.some.inj hstep
        exact hended
    · cases hstep
  | enforcesLeases now lost =>
    obtain rfl := Option.some.inj hstep
    refine (Continues.foldl (fun r₁ j h => h.modify j fun a => ?_) _ (.refl r)).dropSettled now _ _
    exact ⟨rfl, rfl, rfl, rfl, rfl, rfl, rfl, rfl, fun h => h, ⟨_, rfl⟩⟩
  | hostCommits j =>
    obtain ⟨a, ha, hany, rfl⟩ := step_hostCommits hstep
    obtain ⟨s, hs, hcommits⟩ := List.any_eq_true.mp hany
    simp only [Bool.and_eq_true, decide_eq_true_eq] at hcommits
    refine ⟨rfl, rfl, rfl, fun _ _ h => h, fun i a' ha' => ?_⟩
    simp only [Runtime.modify, OrderedMap.get_modify] at ha'
    split at ha'
    · rename_i hj
      subst hj
      rw [ha] at ha'
      obtain rfl := Option.some.inj ha'
      exact ⟨a, ha, .single (.commits s hs hcommits.1 hcommits.2)⟩
    · exact ⟨a', ha', .refl⟩

end Opensteer.RunnerRuntime
