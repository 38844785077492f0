import Mathlib
import Opensteer.RunnerRuntime.Attach

/-!
# Replays

A run of the runtime, over any number of connections: the events of a Run sent on one
are numbered from where it started there, its journal has what the Host did not commit,
and on a connection whose sends do not fail everything in it is sent (`run_journal`).
-/

namespace Opensteer.RunnerRuntime

open Opensteer.RunnerRuntime.Runtime

variable {o : Options} {r r' : Runtime} {connection : Option Nat} {c i : Nat} {a : ActiveRun}

/-! ## Attach answers -/

/-- A Run while the answer on a new connection is applied. -/
structure Resuming (c : Nat) (a : ActiveRun) : Prop extends Held a, Sent (c + 1) a where
  unsent : ∀ s ∈ a.sends, s.connection ≠ c
  replaced : ∀ on ∈ a.journal.sending.on, on ≠ c
  current : ∀ n, a.starts.get c = some n → Current c n a

theorem Journaled.resuming (h : Journaled connection c a) : Resuming c a where
  toHeld := h.toHeld
  starts c' n hn := ⟨Nat.lt_succ_of_lt (h.starts c' n hn).1, (h.starts c' n hn).2⟩
  bound s hs := ⟨(h.bound s hs).1, Nat.lt_succ_of_lt (h.bound s hs).2⟩
  pending := h.pending
  failed := h.failed
  numbered := h.numbered
  busy := h.busy
  on c' hc := Nat.lt_succ_of_lt (h.on c' hc)
  unsent s hs := Nat.ne_of_lt (h.bound s hs).2
  replaced on hon := Nat.ne_of_lt (h.on on hon)
  current n hn := absurd (h.starts c n hn).1 (Nat.lt_irrefl c)

theorem Resuming.journaled (h : Resuming c a) : Journaled (some c) (c + 1) a := by
  refine ⟨h.toHeld, h.toSent, fun c' hc n hn => ?_⟩
  obtain rfl := Option.some.inj hc
  exact h.current n hn

theorem sentOn_eq_nil {sends : List Send} (h : ∀ s ∈ sends, s.connection ≠ c) : sentOn sends c = [] :=
  List.filter_eq_nil_iff.mpr fun s hs => by simp [h s hs]

theorem inFlightOn_of_ne {sending : Sending} (h : ∀ on ∈ sending.on, on ≠ c) : sending.inFlightOn c = 0 := by
  cases sending with
  | idle => rfl
  | sessionBound on => rfl
  | event on ordinal => exact if_neg (h on rfl)

/-- A Run that the answer names starts on the new connection at what the Host has committed. -/
theorem Resuming.resume (h : Resuming c a) : Resuming c (a.resume c a.committed) := by
  have hheld := h.toHeld.discard (Nat.le_refl a.committed)
  have hsent := h.toSent.discard a.committed
  have hdiscards := discards_discard a.committed a.journal
  have hcovered : (a.journal.discard a.committed).covered = a.committed := by
    rw [covered_discard]
    exact Nat.max_eq_right h.covered_le
  have hpumps : (a.resume c a.committed).journal.pumps = a.journal.pumps ++ [⟨none, true⟩] := by
    simp only [ActiveRun.resume, hdiscards.pumps]
  have hsending : (a.resume c a.committed).journal.sending = a.journal.sending := by
    simp only [ActiveRun.resume, hdiscards.sending]
  have hnone : sentOn a.sends c = [] := sentOn_eq_nil h.unsent
  refine ⟨⟨hheld.first_le, hheld.covered_le, hheld.committed_le, hheld.ordinals, hheld.nextOrdinal,
    hheld.entries, hheld.bytes⟩, ⟨fun c' n hn => ?_, h.bound, ?_, h.failed, fun c' n hn => ?_, ?_, ?_⟩,
    h.unsent, ?_, fun n hn => ?_⟩
  · simp only [ActiveRun.resume, OrderedMap.get_set] at hn
    split at hn
    · rename_i hc
      obtain rfl := Option.some.inj hn
      exact ⟨by omega, Nat.le_of_eq hcovered.symm⟩
    · exact hsent.starts c' n hn
  · rw [hsending]; exact h.pending
  · simp only [ActiveRun.resume, OrderedMap.get_set] at hn
    change (sentOn a.sends c').map Send.ordinal = _
    split at hn
    · rename_i hc
      rw [← hc, ActiveRun.resume, hnone]
      rfl
    · exact h.numbered c' n hn
  · rw [hpumps]
    intro _
    simp
  · rw [hsending]; exact h.on
  · rw [hsending]; exact h.replaced
  · simp only [ActiveRun.resume, OrderedMap.get_set, if_true, Option.some.injEq] at hn
    subst hn
    have hidle := inFlightOn_of_ne h.replaced
    refine ⟨?_, fun _ on hon _ => ?_, fun _ _ hp => ?_, fun _ => ?_⟩
    · change a.committed + (a.resume c a.committed).journal.sending.inFlightOn c =
        a.committed + (sentOn a.sends c).length
      rw [hsending, hidle, hnone]
      rfl
    · -- The pump that sends on the older connection, and this one.
      rw [hsending] at hon
      have hbusy := h.busy fun he => by rw [he] at hon; cases hon
      rw [hpumps, List.length_append, List.length_singleton]
      have := List.length_pos_iff.mpr hbusy
      omega
    · rw [hpumps] at hp
      simp at hp
    · exact Nat.le_add_right _ _

/-- Where an attach answer resumes a Run. -/
def resumptions (r : Runtime) (i : Nat) (results : List (RunId × Option Nat)) : List Nat :=
  results.filterMap fun result => if r.find result.1 = some i then result.2 else none

/-- The state without its Runs' executions. -/
structure Same (r r₁ : Runtime) : Prop where
  connection : r₁.connection = r.connection
  connections : r₁.connections = r.connections
  admitted : r₁.admitted = r.admitted
  runs : r₁.runs = r.runs

theorem Same.refl (r : Runtime) : Same r r := ⟨rfl, rfl, rfl, rfl⟩

theorem Same.trans {r₁ r₂ : Runtime} (h : Same r r₁) (h' : Same r₁ r₂) : Same r r₂ :=
  ⟨h'.connection.trans h.connection, h'.connections.trans h.connections, h'.admitted.trans h.admitted,
    h'.runs.trans h.runs⟩

theorem foldl_attachResult (c : Nat) (results : List (RunId × Option Nat)) (r : Runtime) :
    Same r (results.foldl (attachResult c) r) ∧
    (results.foldl (attachResult c) r).settledRuns = r.settledRuns ∧
    ∀ i, (results.foldl (attachResult c) r).actives.get i = (r.actives.get i).map fun a =>
      (resumptions r i results).foldl (fun a n => a.resume c n) a := by
  induction results generalizing r with
  | nil => exact ⟨.refl r, rfl, fun i => by simp [resumptions]⟩
  | cons result results ih =>
    rw [List.foldl_cons]
    cases hfind : r.find result.1 with
    | none =>
      have hsame : attachResult c r result = r := by simp [attachResult, hfind]
      rw [hsame]
      refine ⟨(ih r).1, (ih r).2.1, fun i => ?_⟩
      rw [(ih r).2.2 i, resumptions, resumptions, List.filterMap_cons_none (by simp [hfind])]
    | some j =>
      cases hnext : result.2 with
      | none =>
        have hsame : attachResult c r result = r := by simp [attachResult, hfind, hnext]
        rw [hsame]
        refine ⟨(ih r).1, (ih r).2.1, fun i => ?_⟩
        rw [(ih r).2.2 i, resumptions, resumptions, List.filterMap_cons_none (by simp [hnext])]
      | some n =>
        have hresume : attachResult c r result = r.modify j fun a => a.resume c n := by
          simp [attachResult, hfind, hnext]
        rw [hresume]
        obtain ⟨hsame, hsettled, hget⟩ := ih (r.modify j fun a => a.resume c n)
        refine ⟨(⟨rfl, rfl, rfl, rfl⟩ : Same r (r.modify j _)).trans hsame, hsettled, fun i => ?_⟩
        rw [hget i]
        change ((r.actives.modify j fun a => a.resume c n).get i).map (fun a =>
          (resumptions r i results).foldl (fun a n => a.resume c n) a) = _
        rw [OrderedMap.get_modify]
        by_cases hj : j = i
        · subst hj
          rw [if_pos rfl, Option.map_map]
          conv_rhs => rw [resumptions, List.filterMap_cons_some (b := n) (by simp [hfind, hnext])]
          rfl
        · rw [if_neg hj]
          conv_rhs => rw [resumptions, List.filterMap_cons_none (by simp [hfind, hj])]
          rfl

/-- The Runs revoked are those executing, and the settled ones are forgotten. -/
theorem get_revokeRuns (runIds : List RunId) (r : Runtime) :
    Same r (r.revokeRuns runIds) ∧
    (∀ runId, (r.revokeRuns runIds).settledRuns.get runId =
      if runId ∈ runIds then none else r.settledRuns.get runId) ∧
    ∀ i, (r.revokeRuns runIds).actives.get i = (r.actives.get i).map fun a =>
      if runIds.any (fun runId => r.runs.get runId = some i) then { a with revoked := true } else a := by
  unfold Runtime.revokeRuns
  induction runIds generalizing r with
  | nil => exact ⟨.refl r, fun runId => by simp, fun i => by simp⟩
  | cons runId runIds ih =>
    rw [List.foldl_cons]
    have hone : Same r (r.revokeRun runId) ∧
        (r.revokeRun runId).settledRuns = r.settledRuns.delete runId ∧
        ∀ i, (r.revokeRun runId).actives.get i = (r.actives.get i).map fun a =>
          if r.runs.get runId = some i then { a with revoked := true } else a := by
      unfold revokeRun
      dsimp only
      cases hruns : r.runs.get runId with
      | none => exact ⟨⟨rfl, rfl, rfl, rfl⟩, rfl, fun i => by simp⟩
      | some j =>
        refine ⟨⟨rfl, rfl, rfl, rfl⟩, rfl, fun i => ?_⟩
        simp only [Runtime.modify, OrderedMap.get_modify, Option.some.injEq]
        split
        · rename_i hj
          rw [hj]
        · simp
    obtain ⟨hsame, hsettled, hget⟩ := hone
    obtain ⟨hsame', hsettled', hget'⟩ := ih (r.revokeRun runId)
    refine ⟨hsame.trans hsame', fun other => ?_, fun i => ?_⟩
    · rw [hsettled', hsettled, OrderedMap.get_delete]
      by_cases h : other ∈ runIds
      · simp [h]
      · by_cases hr : runId = other
        · simp [hr]
        · simp [h, hr, Ne.symm hr]
    · rw [hget', hget, Option.map_map, hsame.runs, List.any_cons]
      refine Option.map_congr fun a _ => ?_
      by_cases hr : r.runs.get runId = some i
      · simp [hr]
      · simp [hr]

/-- The state after an attach answer: each Run goes on where the answer says, and is
revoked if it says that or does not name it. -/
theorem get_attach (r : Runtime) (results : List (RunId × Option Nat)) :
    (r.attach results).connection = some r.connections ∧
    (r.attach results).connections = r.connections + 1 ∧
    (r.attach results).admitted = r.admitted ∧ (r.attach results).runs = r.runs ∧
    ∀ i a', (r.attach results).actives.get i = some a' → ∃ a revoked, r.actives.get i = some a ∧
      (let resumed := (resumptions r i results).foldl (fun a n => a.resume r.connections n) a
       a' = { resumed with revoked := resumed.revoked || revoked }) ∧
      (r.runs.get a.runId = some i → revoked = false → resumptions r i results ≠ []) := by
  obtain ⟨hsame, -, hget⟩ := foldl_attachResult r.connections results
    { r with connection := some r.connections, connections := r.connections + 1 }
  unfold Runtime.attach
  dsimp only
  generalize hunanswered : (r.runs.keys ++ r.settledRuns.keys).filter _ = unanswered
  generalize hrevoked : (results.filter _).map Prod.fst = revoked
  obtain ⟨hsame', -, hget'⟩ := get_revokeRuns (revoked ++ unanswered) (results.foldl
    (attachResult r.connections) { r with connection := some r.connections, connections := r.connections + 1 })
  refine ⟨hsame'.connection.trans hsame.connection, hsame'.connections.trans hsame.connections,
    hsame'.admitted.trans hsame.admitted, hsame'.runs.trans hsame.runs, fun i a' ha' => ?_⟩
  rw [hget', hget, hsame.runs] at ha'
  obtain ⟨b, hb, rfl⟩ := Option.map_eq_some_iff.mp ha'
  obtain ⟨a, ha, rfl⟩ := Option.map_eq_some_iff.mp hb
  refine ⟨a, (revoked ++ unanswered).any fun runId => r.runs.get runId = some i, ha, ?_, ?_⟩
  · dsimp only
    split
    · rename_i hany
      rw [hany, Bool.or_true]
      rfl
    · rename_i hany
      rw [Bool.not_eq_true] at hany
      rw [hany, Bool.or_false]
      rfl
  · intro hexecuting hnot
    rw [List.any_eq_false] at hnot
    have hanswered : a.runId ∉ revoked ++ unanswered := fun hmem => hnot _ hmem (by simpa using hexecuting)
    rw [List.mem_append, not_or, ← hrevoked, ← hunanswered] at hanswered
    obtain ⟨hrevoked, hunanswered⟩ := hanswered
    have hnamed : a.runId ∈ results.map Prod.fst := by
      by_contra hno
      refine hunanswered (List.mem_filter.mpr ⟨List.mem_append_left _ ?_, by simpa using hno⟩)
      rw [OrderedMap.mem_keys, hexecuting]
      rfl
    obtain ⟨result, hresult, hid⟩ := List.mem_map.mp hnamed
    have hfind : r.find result.1 = some i := by
      rw [hid, Runtime.find, hexecuting, Option.some_or]
    cases hnext : result.2 with
    | none =>
      exact absurd (List.mem_map.mpr ⟨result, List.mem_filter.mpr ⟨hresult, by simpa using hnext⟩, hid⟩)
        hrevoked
    | some n =>
      refine List.ne_nil_of_mem (List.mem_filterMap.mpr ⟨result, hresult, ?_⟩) (a := n)
      rw [if_pos hfind, hnext]

/-- Every resumption of a Run is at what the Host has committed of it. -/
theorem Resuming.resumes (h : Resuming c a) {ns : List Nat} (hns : ∀ n ∈ ns, n = a.committed) :
    Resuming c (ns.foldl (fun a n => a.resume c n) a) ∧
    (ns ≠ [] → ((ns.foldl (fun a n => a.resume c n) a).starts.get c).isSome) ∧
    (∀ c', (a.starts.get c').isSome → ((ns.foldl (fun a n => a.resume c n) a).starts.get c').isSome) ∧
    (ns.foldl (fun a n => a.resume c n) a).sends = a.sends ∧
    (ns.foldl (fun a n => a.resume c n) a).runId = a.runId := by
  induction ns generalizing a with
  | nil => exact ⟨h, fun hne => absurd rfl hne, fun _ hs => hs, rfl, rfl⟩
  | cons n ns ih =>
    obtain rfl := hns n List.mem_cons_self
    obtain ⟨hresuming, -, hmono, hsends, hrunId⟩ := ih h.resume fun m hm => hns m (List.mem_cons_of_mem _ hm)
    refine ⟨hresuming, fun _ => hmono c (by simp [ActiveRun.resume]), fun c' hs => hmono c' ?_, hsends, hrunId⟩
    simp only [ActiveRun.resume, OrderedMap.get_set]
    split
    · rfl
    · exact hs

theorem resumptions_eq {results : List (RunId × Option Nat)} (h : r.Answers results)
    (ha : r.actives.get i = some a) : ∀ n ∈ resumptions r i results, n = a.committed := by
  intro n hn
  obtain ⟨result, hresult, hnext⟩ := List.mem_filterMap.mp hn
  split at hnext
  · exact h result hresult n hnext i ‹_› a ha
  · cases hnext

/-! ## Steps -/

/-- Every Run of the runtime is journalled and sent as it should be. -/
structure Journals (r : Runtime) : Prop where
  connection : ∀ c ∈ r.connection, c + 1 = r.connections
  fresh : ∀ i a, r.actives.get i = some a → i < r.admitted
  each : Each (fun _ a => Journaled r.connection r.connections a) r

theorem journals_initial : Journals initial :=
  ⟨fun _ h => (nomatch h), fun _ _ h => (nomatch h), fun _ _ h => nomatch h⟩

theorem journals_step {action : Action} (h : Journals r) (hstep : (machine o).step r action = some r') :
    Journals r' := by
  by_cases hcontinues : continues action = true
  · have hr := step_continues hcontinues hstep
    refine ⟨?_, fun i a' ha' => ?_, fun i a' ha' => ?_⟩
    · rw [hr.connection, hr.connections]
      exact h.connection
    · obtain ⟨a, ha, -⟩ := hr.changed i a' ha'
      rw [hr.admitted]
      exact h.fresh i a ha
    · obtain ⟨a, ha, hchanges⟩ := hr.changed i a' ha'
      rw [hr.connection, hr.connections]
      exact (h.each i a ha).changes h.connection hchanges
  cases action with
  | admits runId bindingGeneration firstOrdinal =>
    change r.admits runId bindingGeneration firstOrdinal = some r' at hstep
    unfold Runtime.admits at hstep
    split at hstep
    · rename_i c hc _
      obtain rfl := Option.some.inj hstep
      refine ⟨h.connection, fun i a ha => ?_, h.each.set (i := r.admitted) ?_⟩
      · simp only [OrderedMap.get_set] at ha
        split at ha
        · simp only; omega
        · exact Nat.lt_succ_of_lt (h.fresh i a ha)
      · rw [hc, ← h.connection c hc]
        exact journaled_start ..
    · cases hstep
  | attached results =>
    change (if r.Answers results then some (r.attach results) else none) = some r' at hstep
    split at hstep
    · rename_i hanswers
      obtain rfl := Option.some.inj hstep
      obtain ⟨hconnection, hconnections, hadmitted, -, hget⟩ := get_attach r results
      refine ⟨?_, fun i a' ha' => ?_, fun i a' ha' => ?_⟩
      · rw [hconnection, hconnections]
        rintro c ⟨⟩
        rfl
      · obtain ⟨a, -, ha, -⟩ := hget i a' ha'
        rw [hadmitted]
        exact h.fresh i a ha
      · obtain ⟨a, revoked, ha, rfl, -⟩ := hget i a' ha'
        rw [hconnection, hconnections]
        have hresumed := ((h.each i a ha).resuming.resumes (resumptions_eq hanswers ha)).1.journaled
        exact hresumed.marks ⟨rfl, rfl, rfl, rfl, rfl, rfl, rfl, rfl,
          fun hr => (Bool.or_eq_false_iff.mp hr).1, ⟨_, rfl⟩⟩
    · cases hstep
  | connectionLost c =>
    obtain rfl := Option.some.inj hstep
    unfold Runtime.connectionLost
    split
    · exact ⟨fun _ hc => (by cases hc), h.fresh, fun i a ha =>
        ⟨(h.each i a ha).toHeld, (h.each i a ha).toSent, fun _ hc => by cases hc⟩⟩
    · exact h
  | _ => exact absurd rfl hcontinues

/-- No Run that the answer on a new connection neither resumes nor revokes has a pump
waiting with an event to send. -/
def Answered (r : Runtime) : Action → Prop
  | .attached results => ∀ e ∈ r.actives.entries, e.2.revoked = false →
    r.runs.get e.2.runId = some e.1 ∨ resumptions r e.1 results ≠ [] ∨ e.2.unstarted = [] ∨
      e.2.journal.events.get e.2.journal.sendNext = none
  | _ => True

instance : DecidablePred (Answered r)
  | .attached _ => by unfold Answered; infer_instance
  | .admits .. | .emits .. | .emitReturns _ | .resolvesRequest .. | .bindsSession _ | .flushes _ | .pumpStarts _
  | .sendSettles .. | .acked _ | .connectionLost _ | .revoked _ | .shutsDown | .settles .. | .enforcesLeases ..
  | .hostCommits _ => .isTrue trivial

/-- Every Run's events are sent on connections where it started. -/
def AttachedAll (r : Runtime) : Prop :=
  Each (fun i a => Attached r.connection (r.runs.get a.runId = some i) a) r

theorem Attached.mono {executing executing' : Prop} (h : Attached connection executing a)
    (himp : executing' → executing) : Attached connection executing' a :=
  ⟨h.sent, h.detached, fun he => h.running (himp he)⟩

theorem attached_step {action : Action} (hjournals : Journals r) (h : AttachedAll r)
    (hanswered : Answered r action) (hstep : (machine o).step r action = some r') : AttachedAll r' := by
  by_cases hcontinues : continues action = true
  · have hr := step_continues hcontinues hstep
    intro i a' ha'
    obtain ⟨a, ha, hchanges⟩ := hr.changed i a' ha'
    rw [hr.connection]
    refine ((h i a ha).changes (hjournals.each i a ha) hjournals.connection hchanges).mono fun he => ?_
    rw [← hchanges.runId]
    exact hr.runs _ _ he
  cases action with
  | admits runId bindingGeneration firstOrdinal =>
    change r.admits runId bindingGeneration firstOrdinal = some r' at hstep
    unfold Runtime.admits at hstep
    split at hstep
    · rename_i c hc _
      obtain rfl := Option.some.inj hstep
      intro i a ha
      simp only [OrderedMap.get_set] at ha
      split at ha
      · obtain rfl := Option.some.inj ha
        simp only [hc]
        exact attached_start ..
      · refine (h i a ha).mono fun he => ?_
        simp only [OrderedMap.get_set] at he
        split at he
        · have := hjournals.fresh i a ha
          have := Option.some.inj he
          omega
        · exact he
    · cases hstep
  | attached results =>
    change (if r.Answers results then some (r.attach results) else none) = some r' at hstep
    split at hstep
    · rename_i hanswers
      obtain rfl := Option.some.inj hstep
      obtain ⟨hconnection, -, -, hruns, hget⟩ := get_attach r results
      intro i a' ha'
      obtain ⟨a, revoked, ha, rfl, hrevoked⟩ := hget i a' ha'
      obtain ⟨-, hstarts, hmono, hsends, hrunId⟩ :=
        (hjournals.each i a ha).resuming.resumes (resumptions_eq hanswers ha)
      rw [hconnection]
      refine ⟨fun s hs => ?_, fun c hc hn hr => ?_, fun he hr c hc => ?_⟩
      · rw [hsends] at hs
        exact hmono _ ((h i a ha).sent s hs)
      · obtain rfl := Option.some.inj hc
        obtain ⟨hr, hnot⟩ := Bool.or_eq_false_iff.mp hr
        -- It was not resumed, so it is as it was.
        have hnone : resumptions r i results = [] := by
          by_contra hne
          rw [hn] at hstarts
          cases hstarts hne
        simp only [hnone, List.foldl_nil] at hr ⊢
        have hsending := (hjournals.each i a ha).on
        rcases hanswered (i, a) (OrderedMap.mem_entries.mpr ha) hr with he | he | he | he
        · exact absurd hnone (hrevoked he hnot)
        · exact absurd hnone he
        · exact .inr ⟨he, fun hon => Nat.lt_irrefl _ (hsending _ hon)⟩
        · exact .inl he
      · obtain rfl := Option.some.inj hc
        obtain ⟨hr, hnot⟩ := Bool.or_eq_false_iff.mp hr
        refine hstarts (hrevoked ?_ hnot)
        rw [hruns] at he
        rw [← hrunId]
        exact he
    · cases hstep
  | connectionLost c =>
    obtain rfl := Option.some.inj hstep
    unfold Runtime.connectionLost
    split
    · exact fun i a ha => ⟨(h i a ha).sent, fun _ hc => (by cases hc), fun _ _ _ hc => (by cases hc)⟩
    · exact h
  | _ => exact absurd rfl hcontinues

/-! ## Runs forgotten -/

/-- The Host says that it does not hold the Run. -/
def Revokes (runId : RunId) : Action → Prop
  | .revoked runIds => runId ∈ runIds
  | .attached results => (runId, none) ∈ results ∨ runId ∉ results.map Prod.fst
  | _ => False

/-- A later execution of the Run is admitted, or has ended. -/
def Supersedes (r : Runtime) (runId : RunId) (i : Nat) : Action → Prop
  | .admits other bindingGeneration _ => other = runId ∧
    ∃ a, r.actives.get i = some a ∧ a.bindingGeneration < bindingGeneration
  | .settles j _ => r.runs.get runId = some j
  | _ => False

/-- The Run's journal was kept as long as one is, or with those that ended after it is
over what they may hold. -/
def Overdue (r : Runtime) (runId : RunId) (i : Nat) : Action → Prop
  | .enforcesLeases now _ => ∃ before after a,
    r.settledRuns.entries = before ++ (runId, i) :: after ∧ r.actives.get i = some a ∧
    (a.settledAt + settledJournalRetentionMs ≤ now ∨
      maxSettledJournalBytes < r.settledBytes ((runId, i) :: after))
  | _ => False

/-- Why a settled Run is forgotten. -/
def Forgets (r : Runtime) (action : Action) (r' : Runtime) (runId : RunId) (i : Nat) : Prop :=
  (∃ a, r'.actives.get i = some a ∧ a.journal.settled = true) ∨ Revokes runId action ∨
    Supersedes r runId i action ∨ Overdue r runId i action

variable {runId : RunId} {r₁ : Runtime}

theorem releaseIfSettled_forgets {t : Runtime} {j : Nat} (hbefore : t.settledRuns.get runId = some i) :
    (t.releaseIfSettled j).settledRuns.get runId = some i ∨
    ∃ a, (t.releaseIfSettled j).actives.get i = some a ∧ a.journal.settled = true := by
  unfold Runtime.releaseIfSettled
  split
  · exact .inl hbefore
  · rename_i a ha
    split
    · rename_i hsettled
      rw [OrderedMap.get_delete]
      split
      · rename_i hid
        rw [hid, hbefore] at hsettled
        obtain rfl := Option.some.inj hsettled.1
        exact .inr ⟨a, ha, hsettled.2⟩
      · exact .inl hbefore
    · exact .inl hbefore

theorem actives_releaseIfSettled (r : Runtime) (j : Nat) : (r.releaseIfSettled j).actives = r.actives := by
  unfold Runtime.releaseIfSettled
  split
  · rfl
  · split <;> rfl

theorem settled_discard {journal : RunJournal} (below : Nat) (h : journal.settled = true) :
    (journal.discard below).settled = true := by
  have hbound := (discards_discard below journal).sessionBound
  simp only [RunJournal.settled, Bool.and_eq_true, decide_eq_true_eq] at h ⊢
  rw [hbound]
  refine ⟨?_, h.2⟩
  -- No event is added.
  have hloop : ∀ (entries : List (Nat × JournalEntry)) (j : RunJournal),
      (entries.foldl (fun j e =>
        if e.1 < below then { j with events := j.events.delete e.1, bytes := j.bytes - e.2.bytes }
        else j) j).events.size ≤ j.events.size := by
    intro entries
    induction entries with
    | nil => exact fun _ => Nat.le_refl _
    | cons e entries ih =>
      intro j
      rw [List.foldl_cons]
      refine (ih _).trans ?_
      split
      · exact OrderedMap.size_delete_le ..
      · exact Nat.le_refl _
  have := hloop journal.events.entries { journal with covered := max journal.covered below }
  have : (journal.discard below).events.size ≤ journal.events.size := this
  omega

theorem acknowledge_forgets (acks : List (RunId × Int × Bool))
    (hbefore : r₁.settledRuns.get runId = some i ∨
      ∃ a, r₁.actives.get i = some a ∧ a.journal.settled = true) :
    (r₁.acknowledge acks).settledRuns.get runId = some i ∨
    ∃ a, (r₁.acknowledge acks).actives.get i = some a ∧ a.journal.settled = true := by
  unfold Runtime.acknowledge
  induction acks generalizing r₁ with
  | nil => exact hbefore
  | cons ack acks ih =>
    refine ih ?_
    unfold acknowledgeRun
    split
    · exact hbefore
    · rename_i j _
      rcases hbefore with hbefore | ⟨a, ha, hsettled⟩
      · exact releaseIfSettled_forgets hbefore
      · right
        simp only [actives_releaseIfSettled, Runtime.modify, OrderedMap.get_modify]
        split
        · rename_i hj
          rw [hj, ha]
          refine ⟨_, rfl, ?_⟩
          have hdiscard := settled_discard (ack.2.1 + 1).toNat hsettled
          simp only [RunJournal.settled, Bool.and_eq_true, decide_eq_true_eq] at hdiscard ⊢
          refine ⟨hdiscard.1, ?_⟩
          have := hdiscard.2
          simp_all
        · exact ⟨a, ha, hsettled⟩

/-- Only a Run over the bounds is dropped. -/
theorem dropSettled_forgets (now : Nat) (settled : List (RunId × Nat)) (r₁ : Runtime)
    (hentries : ∀ e ∈ settled, e.1 = runId → e.2 = i) (hbefore : r₁.settledRuns.get runId = some i)
    (hafter : (dropSettled now settled (r₁.settledBytes settled) r₁).settledRuns.get runId ≠ some i) :
    ∃ before after a, settled = before ++ (runId, i) :: after ∧ r₁.actives.get i = some a ∧
      (a.settledAt + settledJournalRetentionMs ≤ now ∨
        maxSettledJournalBytes < r₁.settledBytes ((runId, i) :: after)) := by
  induction settled generalizing r₁ with
  | nil => exact absurd hbefore hafter
  | cons e settled ih =>
    unfold Runtime.dropSettled at hafter
    cases ha : r₁.actives.get e.2 with
    | none =>
      rw [ha] at hafter
      exact absurd hbefore hafter
    | some a =>
      rw [ha] at hafter
      dsimp only at hafter
      split at hafter
      · exact absurd hbefore hafter
      rename_i hover
      by_cases hid : e.1 = runId
      · have hi := hentries e List.mem_cons_self hid
        have he : e = (runId, i) := Prod.ext hid hi
        subst he
        exact ⟨[], settled, a, rfl, ha, by omega⟩
      · -- What is left of the bytes is that of the Runs left.
        have hbytes : r₁.settledBytes (e :: settled) - a.journal.bytes =
            Runtime.settledBytes { r₁ with settledRuns := r₁.settledRuns.delete e.1 } settled := by
          simp only [Runtime.settledBytes, List.map_cons, List.sum_cons, ha]
          omega
        rw [hbytes] at hafter
        obtain ⟨before, after, b, hsplit, hb, hbound⟩ := ih
          { r₁ with settledRuns := r₁.settledRuns.delete e.1 }
          (fun e' he' => hentries e' (List.mem_cons_of_mem _ he'))
          (by rw [OrderedMap.get_delete, if_neg hid]; exact hbefore) hafter
        exact ⟨e :: before, after, b, by rw [hsplit, List.cons_append], hb, hbound⟩

theorem foldl_modify {f : ActiveRun → ActiveRun}
    (hf : ∀ a, (f a).journal = a.journal ∧ (f a).settledAt = a.settledAt) (is : List Nat) (r : Runtime) :
    (is.foldl (fun r i => r.modify i f) r).settledRuns = r.settledRuns ∧
    ∀ i, ∃ g : ActiveRun → ActiveRun, (∀ a, (g a).journal = a.journal ∧ (g a).settledAt = a.settledAt) ∧
      (is.foldl (fun r i => r.modify i f) r).actives.get i = (r.actives.get i).map g := by
  induction is generalizing r with
  | nil => exact ⟨rfl, fun i => ⟨id, fun _ => ⟨rfl, rfl⟩, by simp⟩⟩
  | cons j is ih =>
    obtain ⟨hsettled, hget⟩ := ih (r.modify j f)
    refine ⟨hsettled, fun i => ?_⟩
    obtain ⟨g, hg, hmap⟩ := hget i
    rw [List.foldl_cons, hmap]
    simp only [Runtime.modify, OrderedMap.get_modify]
    split
    · rename_i hj
      rw [hj, Option.map_map]
      exact ⟨g ∘ f, fun a => ⟨(hg _).1.trans (hf a).1, (hg _).2.trans (hf a).2⟩, rfl⟩
    · exact ⟨g, hg, rfl⟩

theorem enforceLeases_forgets {now : Nat} {lost : List Nat} (hbefore : r.settledRuns.get runId = some i)
    (hafter : (r.enforceLeases now lost).settledRuns.get runId ≠ some i) :
    Overdue r runId i (.enforcesLeases now lost) := by
  obtain ⟨hsettled, hget⟩ := foldl_modify (f := fun a => { a with leaseLost := true }) (fun _ => ⟨rfl, rfl⟩)
    (r.runs.values.filter fun i => i ∈ lost) r
  unfold Runtime.enforceLeases at hafter
  dsimp only at hafter
  generalize List.foldl _ r _ = r₁ at hsettled hget hafter
  have hbytes : ∀ settled, r₁.settledBytes settled = r.settledBytes settled := by
    intro settled
    unfold Runtime.settledBytes
    refine congrArg List.sum (List.map_congr_left fun e _ => ?_)
    obtain ⟨g, hg, hmap⟩ := hget e.2
    rw [hmap]
    cases r.actives.get e.2 with
    | none => rfl
    | some a => exact congrArg RunJournal.bytes (hg a).1
  rw [hsettled] at hafter
  obtain ⟨before, after, b, hentries, hb, hbound⟩ := dropSettled_forgets now
    r.settledRuns.entries r₁ (fun e he hid => by
      rw [OrderedMap.mem_entries, hid, hbefore] at he
      exact (Option.some.inj he).symm) (by rw [hsettled]; exact hbefore) hafter
  obtain ⟨g, hg, hmap⟩ := hget i
  rw [hmap] at hb
  obtain ⟨a, ha, rfl⟩ := Option.map_eq_some_iff.mp hb
  rw [(hg a).2, hbytes] at hbound
  exact ⟨before, after, a, hentries, ha, hbound⟩

/-- A settled Run is forgotten only when it may be. -/
theorem step_forgets {action : Action} (hstep : (machine o).step r action = some r')
    (hbefore : r.settledRuns.get runId = some i) (hafter : r'.settledRuns.get runId ≠ some i) :
    Forgets r action r' runId i := by
  have hof : ∀ {j : Nat} {f : ActiveRun → Option ActiveRun}, r.ofExecuting j f = some r' →
      r'.settledRuns = r.settledRuns := by
    intro j f hstep
    obtain ⟨_, _, -, -, -, rfl⟩ := ofExecuting_cases hstep
    rfl
  have hadvance : ∀ {j : Nat} {f : ActiveRun → Option Nat → Option ActiveRun}, r.advance j f = some r' →
      Forgets r action r' runId i := by
    intro j f hstep
    unfold Runtime.advance at hstep
    split at hstep
    · cases hstep
    obtain ⟨a', -, rfl⟩ := Option.map_eq_some_iff.mp hstep
    dsimp only at hafter ⊢
    split at hafter
    · rename_i hends
      rw [if_pos hends]
      exact .inl ((releaseIfSettled_forgets (t := { r with actives := r.actives.set j a' })
        hbefore).resolve_left hafter)
    · exact absurd hbefore hafter
  cases action with
  | admits other bindingGeneration firstOrdinal =>
    change r.admits other bindingGeneration firstOrdinal = some r' at hstep
    unfold Runtime.admits at hstep
    split at hstep
    · obtain rfl := Option.some.inj hstep
      dsimp only at hafter
      split at hafter
      · rename_i hsuperseded
        rw [OrderedMap.get_delete] at hafter
        split at hafter
        · rename_i hid
          rw [hid, hbefore, Option.bind_some] at hsuperseded
          obtain ⟨a, ha, hlt⟩ := (Option.any_eq_true _ _).mp hsuperseded
          exact .inr (.inr (.inl ⟨hid, a, ha, of_decide_eq_true hlt⟩))
        · exact absurd hbefore hafter
      · exact absurd hbefore hafter
    · cases hstep
  | emits j event bytes =>
    obtain ⟨_, -, ⟨_, -, -, rfl⟩ | rfl⟩ := step_emits hstep
    · exact absurd hbefore hafter
    · exact absurd hbefore hafter
  | emitReturns j =>
    obtain ⟨_, _, -, -, rfl⟩ := step_emitReturns hstep
    exact absurd hbefore hafter
  | resolvesRequest j requestId => exact absurd (hof hstep ▸ hbefore) hafter
  | bindsSession j => exact absurd (hof hstep ▸ hbefore) hafter
  | flushes j => exact absurd (hof hstep ▸ hbefore) hafter
  | pumpStarts j => exact hadvance hstep
  | sendSettles j ok => exact hadvance (f := fun a connection => a.sendSettles connection ok) hstep
  | attached results =>
    change (if r.Answers results then some (r.attach results) else none) = some r' at hstep
    split at hstep
    · obtain rfl := Option.some.inj hstep
      unfold Runtime.attach at hafter
      dsimp only at hafter
      obtain ⟨-, hsettled, -⟩ := foldl_attachResult r.connections results
        { r with connection := some r.connections, connections := r.connections + 1 }
      rw [(get_revokeRuns _ _).2.1, hsettled] at hafter
      split at hafter
      · rename_i hmem
        refine .inr (.inl ?_)
        rcases List.mem_append.mp hmem with hmem | hmem
        · obtain ⟨result, hresult, rfl⟩ := List.mem_map.mp hmem
          obtain ⟨hresult, hnone⟩ := List.mem_filter.mp hresult
          exact .inl (of_decide_eq_true hnone ▸ hresult)
        · exact .inr (of_decide_eq_true (List.mem_filter.mp hmem).2)
      · exact absurd hbefore hafter
    · cases hstep
  | acked acks =>
    change (if r.Acknowledges acks then some (r.acknowledge acks) else none) = some r' at hstep
    split at hstep
    · obtain rfl := Option.some.inj hstep
      exact .inl ((acknowledge_forgets acks (.inl hbefore)).resolve_left hafter)
    · cases hstep
  | connectionLost c =>
    obtain rfl := Option.some.inj hstep
    unfold Runtime.connectionLost at hafter
    split at hafter
    · exact absurd hbefore hafter
    · exact absurd hbefore hafter
  | revoked runIds =>
    obtain rfl := Option.some.inj hstep
    rw [(get_revokeRuns runIds r).2.1] at hafter
    split at hafter
    · rename_i hmem
      exact .inr (.inl hmem)
    · exact absurd hbefore hafter
  | shutsDown =>
    obtain rfl := Option.some.inj hstep
    have hsettled := (foldl_modify (f := fun a => { a with shutdown := true }) (fun _ => ⟨rfl, rfl⟩)
      r.runs.values r).1
    rw [hsettled] at hafter
    exact absurd hbefore hafter
  | settles j now =>
    change r.settles j now = some r' at hstep
    unfold Runtime.settles at hstep
    split at hstep
    · cases hstep
    rename_i a ha
    split at hstep
    · rename_i hends
      dsimp only at hstep
      split at hstep
      · obtain rfl := Option.some.inj hstep
        simp only [OrderedMap.get_set] at hafter
        split at hafter
        · rename_i hid
          simp only [Runtime.isExecuting, Bool.and_eq_true, decide_eq_true_eq] at hends
          exact .inr (.inr (.inl (hid ▸ hends.1)))
        · exact absurd hbefore hafter
      · obtain rfl := Option.some.inj hstep
        exact absurd hbefore hafter
    · cases hstep
  | enforcesLeases now lost =>
    obtain rfl := Option.some.inj hstep
    exact .inr (.inr (.inr (enforceLeases_forgets hbefore hafter)))
  | hostCommits j =>
    obtain ⟨_, -, -, rfl⟩ := step_hostCommits hstep
    exact absurd hbefore hafter

/-! ## Runs -/

/-- A Run's journal and its sends, where it started. -/
structure Replayed (connection : Option Nat) (a : ActiveRun) : Prop where
  /-- On a connection it started on, its events are numbered from there. -/
  numbered : ∀ c n, a.starts.get c = some n →
    (sentOn a.sends c).map Send.ordinal = List.range' n (sentOn a.sends c).length
  /-- The journal is the events that are neither acknowledged nor covered. -/
  entries : a.journal.events.entries =
    (a.recorded.filter fun e => a.journal.covered ≤ e.event.ordinal).map fun e => (e.event.ordinal, e)
  bytes : a.journal.bytes = (a.journal.events.values.map JournalEntry.bytes).sum
  /-- When no pump is left on the current connection, and no send there failed, all of it is sent. -/
  quiescent : ∀ c ∈ connection, ∀ n, a.starts.get c = some n → a.revoked = false → c ∉ a.failedOn →
    a.journal.pumps = [] → ∀ k ∈ a.journal.events.keys, (⟨c, k, .sent⟩ : Send) ∈ a.sends

theorem Journaled.replayed {connections : Nat} (h : Journaled connection connections a) :
    Replayed connection a where
  numbered := h.numbered
  entries := h.entries
  bytes := h.bytes
  quiescent c hc n hn hr hf hp k hk := by
    have hcurrent := h.current c hc n hn
    have hidle : a.journal.sending = .idle := by
      by_contra hne
      exact h.busy hne hp
    have hcursor := hcurrent.cursor
    have hcommitted := hcurrent.committed hf
    rw [hidle, inFlightOn_idle, Nat.add_zero] at hcursor hcommitted
    -- Nothing is held at the cursor, so all that is held is before it.
    have hend := hcurrent.quiet hr hf hp
    rw [← Option.not_isSome_iff_eq_none, h.isSome_get] at hend
    rw [OrderedMap.mem_keys, h.isSome_get] at hk
    have hstart := (h.starts c n hn).2
    have hcovered := h.covered_le
    have hmem : k ∈ (sentOn a.sends c).map Send.ordinal := by
      rw [h.numbered c n hn, List.mem_range'_1]
      omega
    obtain ⟨s, hsent, rfl⟩ := List.mem_map.mp hmem
    obtain ⟨hs, rfl, hfailed⟩ := mem_sentOn.mp hsent
    obtain ⟨done, hdone, hpending⟩ := h.pending
    rw [hidle, inFlight_idle, List.append_nil] at hdone
    have hsent : s.status = .sent := by
      cases hstatus : s.status with
      | pending => exact absurd hstatus (hpending s (hdone ▸ hs))
      | failed => exact absurd hstatus hfailed
      | sent => rfl
    rw [← hsent]
    exact hs

/-- In every run, each Run is replayed as it should be, and forgotten only when it may be
once it has ended. If no attach answer leaves a Run's pump waiting, its events are sent
on no connection where it did not start. -/
theorem run_journal (o : Options) (as : List Action) (r : Runtime) (hrun : (machine o).run initial as = some r) :
    (∀ i a, r.actives.get i = some a → Replayed r.connection a ∧
      ((machine o).Meets (fun r action => Answered r action) initial as →
        ∀ c, a.starts.get c = none → sentOn a.sends c = [])) ∧
    ∀ action r', (machine o).step r action = some r' → ∀ runId i, r.settledRuns.get runId = some i →
      r'.settledRuns.get runId ≠ some i → Forgets r action r' runId i := by
  have hjournals : Journals r := (machine o).invariant journals_initial
    (fun _ _ _ h hstep => journals_step h hstep) hrun
  refine ⟨fun i a ha => ⟨(hjournals.each i a ha).replayed, fun hmeets c hnone => ?_⟩,
    fun action r' hstep runId i hbefore hafter => step_forgets hstep hbefore hafter⟩
  have hattached := (machine o).run_invariant (P := fun r => Journals r ∧ AttachedAll r)
    ⟨journals_initial, fun _ _ h => nomatch h⟩
    (fun _ _ _ h hanswered hstep => ⟨journals_step h.1 hstep, attached_step h.1 h.2 hanswered hstep⟩)
    hmeets hrun
  refine sentOn_eq_nil fun s hs hc => ?_
  have := (hattached.2 i a ha).sent s hs
  rw [hc, hnone] at this
  cases this

/-- A Run ends out of the Host's reach, and is replayed. -/
def replayedRun : List Action :=
  [.attached [], .admits ⟨"run"⟩ 1 0,
    .emits 0 (.other "message.completed") 300, .pumpStarts 0, .sendSettles 0 true, .hostCommits 0,
    .emits 0 .runCompleted 300, .pumpStarts 0, .connectionLost 0, .attached [(⟨"run"⟩, some 1)],
    .sendSettles 0 true, .settles 0 0, .pumpStarts 0, .sendSettles 0 true]

theorem run_journal_run : ∃ r, (machine smallOptions).run initial replayedRun = some r ∧
    ∃ a, r.actives.get 0 = some a ∧ sentOn a.sends 1 = [⟨1, 1, .sent⟩] ∧ Replayed r.connection a ∧
    (∀ c, a.starts.get c = none → sentOn a.sends c = []) ∧
    ∀ action r', (machine smallOptions).step r action = some r' → ∀ runId i,
      r.settledRuns.get runId = some i → r'.settledRuns.get runId ≠ some i → Forgets r action r' runId i := by
  obtain ⟨r, hrun, a, ha, hsent⟩ := (machine smallOptions).exists_run_of_any
    (P := fun r => ∃ a ∈ r.actives.get 0, sentOn a.sends 1 = [⟨1, 1, .sent⟩])
    (s := initial) (l := replayedRun) (by decide +kernel)
  obtain ⟨hruns, hforgets⟩ := run_journal smallOptions replayedRun r hrun
  exact ⟨r, hrun, a, ha, hsent, (hruns 0 a ha).1, (hruns 0 a ha).2 (by decide +kernel), hforgets⟩

/-- A Run ends out of the Host's reach. Its replay waits for a send on a connection that is
replaced, and the Host revokes it on the next. -/
def revokedReplayRun : List Action :=
  [.attached [], .admits ⟨"run"⟩ 1 0, .connectionLost 0, .emits 0 .runCompleted 300, .pumpStarts 0,
    .emitReturns 0, .settles 0 0, .attached [(⟨"run"⟩, some 0)], .pumpStarts 0,
    .attached [(⟨"run"⟩, some 0)], .attached [(⟨"run"⟩, none)], .sendSettles 0 true, .pumpStarts 0]

/-- Its event is sent on the connection where it was revoked. -/
theorem revoked_run_sent : ∃ r, (machine smallOptions).run initial revokedReplayRun = some r ∧
    ∃ a ∈ r.actives.get 0, r.connection = some 3 ∧ a.starts.get 3 = none ∧
      sentOn a.sends 3 = [⟨3, 0, .pending⟩] :=
  (machine smallOptions).exists_run_of_any (by decide +kernel)

end Opensteer.RunnerRuntime
