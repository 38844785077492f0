import Opensteer.RunnerRuntime.Budget

/-!
# A Run's journal and its sends

The journal has the events recorded and not covered yet (`Held`). The sends on a
connection that the Run started on are numbered from where it started, whatever became
of the connections before (`Sent`). Where it started on the current one, the journal's
cursor is after the last of them, and no event waits there with no pump to send it
(`Current`). Each operation on a Run keeps all three.
-/

namespace Opensteer.RunnerRuntime

variable {connection : Option Nat} {connections c n : Nat} {a a' b : ActiveRun}

/-! ## Sends on a connection -/

/-- The sends on a connection that did not fail. -/
def sentOn (sends : List Send) (c : Nat) : List Send :=
  sends.filter fun s => s.connection = c && s.status ≠ .failed

theorem sentOn_append (sends sends' : List Send) (c : Nat) :
    sentOn (sends ++ sends') c = sentOn sends c ++ sentOn sends' c := List.filter_append ..

theorem mem_sentOn {sends : List Send} {s : Send} :
    s ∈ sentOn sends c ↔ s ∈ sends ∧ s.connection = c ∧ s.status ≠ .failed := by
  simp [sentOn, List.mem_filter]

theorem sentOn_self {s : Send} (h : s.status ≠ .failed) : sentOn [s] s.connection = [s] := by
  simp [sentOn, h]

theorem sentOn_of_ne {s : Send} (h : s.connection ≠ c) : sentOn [s] c = [] := by
  simp [sentOn, h]

theorem sentOn_of_failed {s : Send} (h : s.status = .failed) : sentOn [s] c = [] := by
  simp [sentOn, h]

/-- The event that is being sent. -/
def Sending.inFlight : Sending → List Send
  | .event on ordinal => [⟨on, ordinal, .pending⟩]
  | _ => []

/-- The connection that a send is on. -/
def Sending.on : Sending → Option Nat
  | .idle => none
  | .sessionBound on => some on
  | .event on _ => some on

/-- How many events are being sent on a connection. -/
def Sending.inFlightOn (c : Nat) : Sending → Nat
  | .event on _ => if on = c then 1 else 0
  | _ => 0

@[simp] theorem inFlight_idle : Sending.idle.inFlight = [] := rfl

@[simp] theorem inFlightOn_idle : Sending.idle.inFlightOn c = 0 := rfl

@[simp] theorem inFlightOn_sessionBound {on : Nat} : (Sending.sessionBound on).inFlightOn c = 0 := rfl

@[simp] theorem inFlightOn_event {on ordinal : Nat} :
    (Sending.event on ordinal).inFlightOn c = if on = c then 1 else 0 := rfl

/-! ## What is kept of a Run -/

/-- The journal holds each event recorded that is not covered. -/
structure Held (a : ActiveRun) : Prop where
  first_le : a.firstOrdinal ≤ a.journal.covered
  covered_le : a.journal.covered ≤ a.committed
  committed_le : a.committed ≤ a.nextOrdinal
  ordinals : a.recorded.map (fun e => e.event.ordinal) = List.range' a.firstOrdinal a.recorded.length
  nextOrdinal : a.nextOrdinal = a.firstOrdinal + a.recorded.length
  entries : a.journal.events.entries =
    (a.recorded.filter fun e => a.journal.covered ≤ e.event.ordinal).map fun e => (e.event.ordinal, e)
  bytes : a.journal.bytes = (a.journal.events.values.map JournalEntry.bytes).sum

/-- The sends on each connection that the Run started on are numbered from there. -/
structure Sent (connections : Nat) (a : ActiveRun) : Prop where
  starts : ∀ c n, a.starts.get c = some n → c < connections ∧ n ≤ a.journal.covered
  bound : ∀ s ∈ a.sends, s.ordinal < a.nextOrdinal ∧ s.connection < connections
  pending : ∃ done, a.sends = done ++ a.journal.sending.inFlight ∧ ∀ s ∈ done, s.status ≠ .pending
  failed : ∀ s ∈ a.sends, s.status = .failed → s.connection ∈ a.failedOn
  numbered : ∀ c n, a.starts.get c = some n →
    (sentOn a.sends c).map Send.ordinal = List.range' n (sentOn a.sends c).length
  busy : a.journal.sending ≠ .idle → a.journal.pumps ≠ []
  on : ∀ c ∈ a.journal.sending.on, c < connections

/-- The Run goes on on the connection `c`, where it started at `n`: a pump sends the event
at its cursor or waits to, and no stale send is the last its pumps wait for. -/
structure Current (c n : Nat) (a : ActiveRun) : Prop where
  cursor : a.journal.sendNext + a.journal.sending.inFlightOn c = n + (sentOn a.sends c).length
  stale : a.revoked = false → ∀ on ∈ a.journal.sending.on, on ≠ c → 2 ≤ a.journal.pumps.length
  quiet : a.revoked = false → c ∉ a.failedOn → a.journal.pumps = [] →
    a.journal.events.get a.journal.sendNext = none
  committed : c ∉ a.failedOn → a.committed ≤ a.journal.sendNext + a.journal.sending.inFlightOn c

structure Journaled (connection : Option Nat) (connections : Nat) (a : ActiveRun) : Prop extends
    Held a, Sent connections a where
  current : ∀ c ∈ connection, ∀ n, a.starts.get c = some n → Current c n a

theorem Held.keys (h : Held a) : a.journal.events.keys =
    (List.range' a.firstOrdinal a.recorded.length).filter fun k => a.journal.covered ≤ k := by
  rw [OrderedMap.keys, h.entries, ← h.ordinals, List.filter_map, List.map_map]
  rfl

/-- The ordinals held are those from the first that is not covered. -/
theorem Held.isSome_get (h : Held a) {k : Nat} :
    (a.journal.events.get k).isSome ↔ a.journal.covered ≤ k ∧ k < a.nextOrdinal := by
  rw [← OrderedMap.mem_keys, h.keys, List.mem_filter, List.mem_range'_1, h.nextOrdinal]
  have := h.first_le
  simp only [decide_eq_true_eq]
  omega

/-! ## Emits and pumps -/

theorem journaled_start (runId : RunId) (bindingGeneration firstOrdinal c : Nat) :
    Journaled (some c) (c + 1) (ActiveRun.start runId bindingGeneration firstOrdinal c) where
  first_le := Nat.le_refl _
  covered_le := Nat.le_refl _
  committed_le := Nat.le_refl _
  ordinals := rfl
  nextOrdinal := rfl
  entries := rfl
  bytes := rfl
  starts c' n h := by
    simp only [ActiveRun.start, OrderedMap.get_set, OrderedMap.get_empty] at h
    split at h
    · obtain rfl := Option.some.inj h
      exact ⟨by omega, Nat.le_refl _⟩
    · cases h
  bound _ h := nomatch h
  pending := ⟨[], rfl, fun _ h => nomatch h⟩
  failed _ h := nomatch h
  numbered _ _ _ := rfl
  busy h := absurd rfl h
  on _ h := nomatch h
  current c' hc n h := by
    obtain rfl := Option.some.inj hc
    simp only [ActiveRun.start, OrderedMap.get_set, if_true, Option.some.injEq] at h
    subst h
    exact ⟨rfl, fun _ _ h => (nomatch h), fun _ _ _ => rfl, fun _ => Nat.le_refl _⟩

/-- An entry recorded goes to the end of the journal. -/
theorem entries_set_next (h : Held a) (entry : JournalEntry) :
    (a.journal.events.set a.nextOrdinal entry).entries =
      a.journal.events.entries ++ [(a.nextOrdinal, entry)] := by
  have hnew : a.nextOrdinal ∉ a.journal.events.keys := by
    rw [OrderedMap.mem_keys, h.isSome_get]
    omega
  have hput : ∀ es : List (Nat × JournalEntry), a.nextOrdinal ∉ es.map Prod.fst →
      OrderedMap.put a.nextOrdinal entry es = es ++ [(a.nextOrdinal, entry)] := by
    intro es
    induction es with
    | nil => intro _; rfl
    | cons e es ih =>
      intro hes
      simp only [List.map_cons, List.mem_cons, not_or] at hes
      rw [OrderedMap.put, if_neg (Ne.symm hes.1), ih hes.2, List.cons_append]
  exact hput _ hnew

theorem Journaled.record (h : Journaled connection connections a) (event : HarnessEvent) (bytes : Nat) :
    Journaled connection connections (a.record event bytes) where
  first_le := h.first_le
  covered_le := h.covered_le
  committed_le := Nat.le_succ_of_le h.committed_le
  ordinals := by
    simp only [ActiveRun.record, List.map_append, h.ordinals, h.nextOrdinal, List.map_cons, List.map_nil,
      List.length_append, List.length_cons, List.length_nil, Nat.zero_add]
    rw [List.range'_concat, Nat.one_mul]
  nextOrdinal := by
    simp only [ActiveRun.record, h.nextOrdinal, List.length_append, List.length_cons, List.length_nil]
    omega
  entries := by
    have hle : a.journal.covered ≤ a.nextOrdinal := h.covered_le.trans h.committed_le
    refine (entries_set_next h.toHeld _).trans ?_
    rw [h.entries]
    change _ = ((a.recorded ++ [_]).filter fun e : JournalEntry =>
      a.journal.covered ≤ e.event.ordinal).map _
    rw [List.filter_append, List.map_append]
    simp [hle]
  bytes := by
    have hentries := entries_set_next h.toHeld ⟨bytes, ⟨a.nextOrdinal, event⟩⟩
    simp only [ActiveRun.record, OrderedMap.values, hentries, List.map_append, List.sum_append]
    have := h.bytes
    simp only [OrderedMap.values] at this
    simp [this]
  starts := h.starts
  bound s hs := ⟨Nat.lt_succ_of_lt (h.bound s hs).1, (h.bound s hs).2⟩
  pending := h.pending
  failed := h.failed
  numbered := h.numbered
  busy _ := by simp [ActiveRun.record]
  on := h.on
  current c hc n hn := by
    have hcurrent := h.current c hc n hn
    refine ⟨hcurrent.cursor, fun hr on hon hne => ?_, fun _ _ hp => ?_, hcurrent.committed⟩
    · have := hcurrent.stale hr on hon hne
      simp only [ActiveRun.record, List.length_append, List.length_singleton]
      omega
    · simp [ActiveRun.record] at hp

theorem Journaled.addPump (h : Journaled connection connections a) (pump : Pump) :
    Journaled connection connections (a.addPump pump) where
  toHeld := ⟨h.first_le, h.covered_le, h.committed_le, h.ordinals, h.nextOrdinal, h.entries, h.bytes⟩
  starts := h.starts
  bound := h.bound
  pending := h.pending
  failed := h.failed
  numbered := h.numbered
  busy _ := by simp [ActiveRun.addPump]
  on := h.on
  current c hc n hn := by
    have hcurrent := h.current c hc n hn
    refine ⟨hcurrent.cursor, fun hr on hon hne => ?_, fun _ _ hp => ?_, hcurrent.committed⟩
    · have := hcurrent.stale hr on hon hne
      simp only [ActiveRun.addPump, List.length_append, List.length_singleton]
      omega
    · simp [ActiveRun.addPump] at hp

theorem finish_eq {pump : Pump} {pumps : List Pump} (h : a.journal.pumps = pump :: pumps) :
    a.finish = { a with
      journal := { a.journal with pumps, sending := .idle }
      returning := a.returning ++ pump.pendingAfter.toList } := by
  unfold ActiveRun.finish
  split
  · rename_i hnil
    rw [hnil] at h
    cases h
  · rename_i hpumps
    rw [hpumps] at h
    cases h
    rfl

/-- A pump that is done leaves no event for the current connection, unless another waits. -/
theorem Journaled.finish (h : Journaled connection connections a) (hidle : a.journal.sending = .idle)
    (hquiet : ∀ c ∈ connection, ∀ n, a.starts.get c = some n → a.revoked = false → c ∉ a.failedOn →
      a.journal.pumps.length < 2 → a.journal.events.get a.journal.sendNext = none) :
    Journaled connection connections a.finish := by
  cases hpumps : a.journal.pumps with
  | nil =>
    have hfinish : a.finish = a := by
      unfold ActiveRun.finish
      rw [hpumps]
    rwa [hfinish]
  | cons pump pumps =>
    rw [finish_eq hpumps]
    have hpending := h.pending
    rw [hidle] at hpending
    refine ⟨⟨h.first_le, h.covered_le, h.committed_le, h.ordinals, h.nextOrdinal, h.entries, h.bytes⟩,
      ⟨h.starts, h.bound, hpending, h.failed, h.numbered, fun hne => absurd rfl hne, fun _ hc => nomatch hc⟩,
      fun c hc n hn => ?_⟩
    have hcurrent := h.current c hc n hn
    have hcursor := hcurrent.cursor
    have hcommitted := hcurrent.committed
    rw [hidle] at hcursor hcommitted
    refine ⟨hcursor, fun _ _ hon => (nomatch hon), fun hr hf hp => ?_, hcommitted⟩
    refine hquiet c hc n hn hr hf ?_
    have hnil : pumps = [] := hp
    rw [hpumps, hnil]
    simp

/-- The event at the cursor is sent. -/
theorem Journaled.send (h : Journaled (some c) (c + 1) a) (hidle : a.journal.sending = .idle)
    (hpumps : a.journal.pumps ≠ []) (hget : (a.journal.events.get a.journal.sendNext).isSome) :
    Journaled (some c) (c + 1) { a with
      journal := { a.journal with sending := .event c a.journal.sendNext }
      sends := a.sends ++ [⟨c, a.journal.sendNext, .pending⟩] } := by
  obtain ⟨done, hdone, hnone⟩ := h.pending
  rw [hidle, inFlight_idle, List.append_nil] at hdone
  have hself : sentOn [(⟨c, a.journal.sendNext, .pending⟩ : Send)] c =
      [⟨c, a.journal.sendNext, .pending⟩] := sentOn_self (by simp)
  refine ⟨⟨h.first_le, h.covered_le, h.committed_le, h.ordinals, h.nextOrdinal, h.entries, h.bytes⟩,
    ⟨h.starts, ?_, ⟨done, by rw [hdone]; rfl, hnone⟩, ?_, ?_, fun _ => hpumps, ?_⟩, ?_⟩
  · intro s hs
    rcases List.mem_append.mp hs with hs | hs
    · exact h.bound s hs
    · obtain rfl := List.mem_singleton.mp hs
      exact ⟨(h.isSome_get.mp hget).2, Nat.lt_succ_self c⟩
  · intro s hs hfailed
    rcases List.mem_append.mp hs with hs | hs
    · exact h.failed s hs hfailed
    · obtain rfl := List.mem_singleton.mp hs
      cases hfailed
  · intro c' n hn
    have hnumbered := h.numbered c' n hn
    simp only [sentOn_append]
    by_cases hc : c = c'
    · subst hc
      have hcursor := (h.current c rfl n hn).cursor
      rw [hidle, inFlightOn_idle, Nat.add_zero] at hcursor
      rw [hself, List.map_append, hnumbered, List.length_append, List.length_singleton, List.range'_concat,
        Nat.one_mul, ← hcursor]
      rfl
    · rw [sentOn_of_ne hc, List.append_nil]
      exact hnumbered
  · intro c' hc
    obtain rfl := Option.some.inj hc
    exact Nat.lt_succ_self c
  · intro c' hc n hn
    obtain rfl := Option.some.inj hc
    have hcurrent := h.current c rfl n hn
    have hcursor := hcurrent.cursor
    rw [hidle, inFlightOn_idle, Nat.add_zero] at hcursor
    refine ⟨?_, fun _ on hon hne => absurd (Option.some.inj hon).symm hne, fun _ _ hp => absurd hp hpumps,
      fun hf => ?_⟩
    · simp only [inFlightOn_event, if_true, sentOn_append, hself, List.length_append,
        List.length_singleton]
      omega
    · simp only [inFlightOn_event, if_true]
      have hle := hcurrent.committed hf
      rw [hidle, inFlightOn_idle, Nat.add_zero] at hle
      exact Nat.le_succ_of_le hle

theorem Journaled.sendOn (h : Journaled (some c) (c + 1) a) (hidle : a.journal.sending = .idle)
    (hpumps : a.journal.pumps ≠ []) : Journaled (some c) (c + 1) (a.sendOn (some c) c) := by
  unfold ActiveRun.sendOn
  simp only [ne_eq, not_true_eq_false, decide_false, Bool.false_or]
  split
  · rename_i hrevoked
    exact h.finish hidle fun _ _ _ _ hr => by rw [hrevoked] at hr; cases hr
  · split
    · rename_i hnone
      exact h.finish hidle fun _ _ _ _ _ _ _ => hnone
    · rename_i hsome
      exact h.send hidle hpumps (by rw [hsome]; rfl)

theorem Journaled.pumpStarts (h : Journaled connection connections a)
    (hconnection : ∀ c ∈ connection, c + 1 = connections) (hstep : a.pumpStarts connection = some a') :
    Journaled connection connections a' := by
  unfold ActiveRun.pumpStarts at hstep
  split at hstep
  · cases hstep
  rename_i hready
  rw [not_or, ne_eq, not_not] at hready
  obtain ⟨hidle, hpumps⟩ := hready
  split at hstep
  · obtain rfl := Option.some.inj hstep
    exact h.finish hidle fun _ hc => nomatch hc
  rename_i c
  obtain rfl := hconnection c rfl
  split at hstep
  · rename_i hrevoked
    obtain rfl := Option.some.inj hstep
    exact h.finish hidle fun _ _ _ _ hr => by rw [hrevoked] at hr; cases hr
  split at hstep
  · obtain rfl := Option.some.inj hstep
    have hpending := h.pending
    rw [hidle] at hpending
    refine ⟨⟨h.first_le, h.covered_le, h.committed_le, h.ordinals, h.nextOrdinal, h.entries, h.bytes⟩,
      ⟨h.starts, h.bound, hpending, h.failed, h.numbered, fun _ => hpumps, ?_⟩, fun c' hc n hn => ?_⟩
    · intro c' hc
      obtain rfl := Option.some.inj hc
      exact Nat.lt_succ_self c
    · obtain rfl := Option.some.inj hc
      have hcurrent := h.current c rfl n hn
      have hcursor := hcurrent.cursor
      have hcommitted := hcurrent.committed
      rw [hidle] at hcursor hcommitted
      exact ⟨hcursor, fun _ on hon hne => absurd (Option.some.inj hon).symm hne,
        fun _ _ hp => absurd hp hpumps, hcommitted⟩
  · obtain rfl := Option.some.inj hstep
    exact h.sendOn hidle hpumps

/-! ## The end of a send -/

def ActiveRun.idle (a : ActiveRun) : ActiveRun := { a with journal := { a.journal with sending := .idle } }

theorem finish_idle (h : a.journal.pumps ≠ []) : a.idle.finish = a.finish := by
  obtain ⟨pump, pumps, hpumps⟩ := List.exists_cons_of_ne_nil h
  rw [finish_eq hpumps, finish_eq (a := a.idle) hpumps]
  rfl

theorem Journaled.finish_idle (h : Journaled connection connections a.idle) (hpumps : a.journal.pumps ≠ [])
    (hquiet : ∀ c ∈ connection, ∀ n, a.starts.get c = some n → a.revoked = false → c ∉ a.failedOn →
      a.journal.pumps.length < 2 → a.journal.events.get a.journal.sendNext = none) :
    Journaled connection connections a.finish :=
  RunnerRuntime.finish_idle hpumps ▸ h.finish rfl hquiet

theorem Journaled.sendOn_idle (h : Journaled (some c) (c + 1) a.idle) (hpumps : a.journal.pumps ≠ []) :
    Journaled (some c) (c + 1) (a.sendOn (some c) c) := by
  have hsend := h.sendOn rfl hpumps
  unfold ActiveRun.sendOn at hsend ⊢
  rw [RunnerRuntime.finish_idle hpumps] at hsend
  exact hsend

/-- A send is done, and its pump has yet to go on. -/
def ActiveRun.sendDone (a : ActiveRun) (ok : Bool) (sendNext : Nat) (failedOn : List Nat) : ActiveRun :=
  { a with
    journal := { a.journal with sending := .idle, sendNext }
    sends := a.sends.map (Send.settle ok)
    failedOn }

theorem settle_eq (ok : Bool) (s : Send) : (s.settle ok).ordinal = s.ordinal ∧
    (s.settle ok).connection = s.connection ∧ (s.settle ok).status ≠ .pending ∧
    ((s.settle ok).status = .failed → s.status = .failed ∨ s.status = .pending ∧ ok = false) := by
  unfold Send.settle
  split
  · cases ok <;> simp_all
  · simp_all

theorem settle_of_not_pending {sends : List Send} (h : ∀ s ∈ sends, s.status ≠ .pending) (ok : Bool) :
    sends.map (Send.settle ok) = sends := by
  refine (List.map_congr_left fun s hs => ?_).trans (List.map_id _)
  rw [Send.settle, if_neg (h s hs), id_eq]

/-- How the sends are once the one awaited is done. -/
theorem Sent.settled (h : Sent connections a) (ok : Bool) : ∃ done, a.sends = done ++ a.journal.sending.inFlight ∧
    (∀ s ∈ done, s.status ≠ .pending) ∧
    a.sends.map (Send.settle ok) = done ++ a.journal.sending.inFlight.map (Send.settle ok) := by
  obtain ⟨done, hdone, hnone⟩ := h.pending
  refine ⟨done, hdone, hnone, ?_⟩
  rw [hdone, List.map_append, settle_of_not_pending hnone]

/-- A send that fails leaves the cursor, and the connection is one where a send failed. -/
theorem Journaled.sendFails {on ordinal : Nat} (h : Journaled connection connections a)
    (hsending : a.journal.sending = .event on ordinal) :
    Journaled connection connections (a.sendDone false a.journal.sendNext (on :: a.failedOn)) := by
  obtain ⟨done, hdone, hnone, hsettled⟩ := h.settled false
  rw [hsending] at hdone hsettled
  have hsettled : a.sends.map (Send.settle false) = done ++ [⟨on, ordinal, .failed⟩] := hsettled
  have hsent : ∀ c, sentOn (a.sends.map (Send.settle false)) c = sentOn done c := fun c => by
    rw [hsettled, sentOn_append, sentOn_of_failed rfl, List.append_nil]
  have hbefore : ∀ c, sentOn a.sends c = sentOn done c ++
      if on = c then [⟨on, ordinal, .pending⟩] else [] := fun c => by
    rw [hdone, sentOn_append]
    split
    · rename_i hc
      rw [← hc, Sending.inFlight, sentOn_self (by simp)]
    · rename_i hc
      rw [Sending.inFlight, sentOn_of_ne hc]
  refine ⟨⟨h.first_le, h.covered_le, h.committed_le, h.ordinals, h.nextOrdinal, h.entries, h.bytes⟩,
    ⟨h.starts, ?_, ⟨_, (List.append_nil _).symm, ?_⟩, ?_, fun c n hn => ?_, fun hne => absurd rfl hne,
      fun _ hc => nomatch hc⟩, fun c hc n hn => ?_⟩
  · intro s hs
    obtain ⟨t, ht, rfl⟩ := List.mem_map.mp hs
    obtain ⟨hordinal, hconnection, -⟩ := settle_eq false t
    rw [hordinal, hconnection]
    exact h.bound t ht
  · intro s hs
    obtain ⟨t, -, rfl⟩ := List.mem_map.mp hs
    exact (settle_eq false t).2.2.1
  · intro s hs hfailed
    rw [ActiveRun.sendDone, hsettled] at hs
    rcases List.mem_append.mp hs with hs | hs
    · exact List.mem_cons_of_mem _ (h.failed s (by rw [hdone]; exact List.mem_append_left _ hs) hfailed)
    · rw [List.mem_singleton.mp hs]
      exact List.mem_cons_self
  · have hnumbered := h.numbered c n hn
    rw [ActiveRun.sendDone, hsent]
    rw [hbefore] at hnumbered
    split at hnumbered
    · rw [List.map_append, List.length_append, List.length_singleton, List.range'_concat] at hnumbered
      exact (List.append_inj' hnumbered rfl).1
    · rw [List.append_nil] at hnumbered
      exact hnumbered
  · have hcurrent := h.current c hc n hn
    have hcursor := hcurrent.cursor
    rw [hsending, inFlightOn_event, hbefore] at hcursor
    refine ⟨?_, fun _ _ hon => (nomatch hon), fun _ _ hp => ?_, fun hf => ?_⟩
    · change a.journal.sendNext + 0 = n + (sentOn (a.sends.map (Send.settle false)) c).length
      rw [hsent]
      split at hcursor
      · rw [List.length_append, List.length_singleton] at hcursor
        omega
      · rw [List.append_nil] at hcursor
        exact hcursor
    · exact absurd hp (h.busy (by rw [hsending]; simp))
    · simp only [ActiveRun.sendDone, List.mem_cons, not_or] at hf
      have hle := hcurrent.committed hf.2
      rw [hsending, inFlightOn_event, if_neg (Ne.symm hf.1)] at hle
      exact hle

/-- A send that succeeds moves the cursor on, unless its connection was replaced. -/
theorem Journaled.sendSucceeds {on ordinal : Nat} (h : Journaled connection connections a)
    (hsending : a.journal.sending = .event on ordinal) :
    Journaled connection connections (a.sendDone true
      (if connection = some on then a.journal.sendNext + 1 else a.journal.sendNext) a.failedOn) := by
  obtain ⟨done, hdone, hnone, hsettled⟩ := h.settled true
  rw [hsending] at hdone hsettled
  have hsettled : a.sends.map (Send.settle true) = done ++ [⟨on, ordinal, .sent⟩] := hsettled
  have hdone : a.sends = done ++ [⟨on, ordinal, .pending⟩] := hdone
  -- The send counted while it was awaited, and counts now.
  have hsent : ∀ c, (sentOn (a.sends.map (Send.settle true)) c).map Send.ordinal =
      (sentOn a.sends c).map Send.ordinal := fun c => by
    rw [hsettled, hdone, sentOn_append, sentOn_append, List.map_append, List.map_append]
    congr 1
    by_cases hc : on = c
    · subst hc
      rw [sentOn_self (s := ⟨on, ordinal, .sent⟩) (by simp),
        sentOn_self (s := ⟨on, ordinal, .pending⟩) (by simp)]
      rfl
    · rw [sentOn_of_ne hc, sentOn_of_ne hc]
  have hlength : ∀ c, (sentOn (a.sends.map (Send.settle true)) c).length = (sentOn a.sends c).length :=
    fun c => by simpa using congrArg List.length (hsent c)
  refine ⟨⟨h.first_le, h.covered_le, h.committed_le, h.ordinals, h.nextOrdinal, h.entries, h.bytes⟩,
    ⟨h.starts, ?_, ⟨_, (List.append_nil _).symm, ?_⟩, ?_, fun c n hn => ?_, fun hne => absurd rfl hne,
      fun _ hc => nomatch hc⟩, fun c hc n hn => ?_⟩
  · intro s hs
    obtain ⟨t, ht, rfl⟩ := List.mem_map.mp hs
    obtain ⟨hordinal, hconnection, -⟩ := settle_eq true t
    rw [hordinal, hconnection]
    exact h.bound t ht
  · intro s hs
    obtain ⟨t, -, rfl⟩ := List.mem_map.mp hs
    exact (settle_eq true t).2.2.1
  · intro s hs hfailed
    obtain ⟨t, ht, rfl⟩ := List.mem_map.mp hs
    obtain ⟨-, hconnection, -, hstatus⟩ := settle_eq true t
    rw [hconnection]
    exact h.failed t ht ((hstatus hfailed).resolve_right (by simp))
  · rw [ActiveRun.sendDone, hsent, hlength]
    exact h.numbered c n hn
  · have hcurrent := h.current c hc n hn
    have hcursor := hcurrent.cursor
    have hcommitted := hcurrent.committed
    rw [hsending, inFlightOn_event] at hcursor hcommitted
    obtain rfl := Option.mem_def.mp hc
    refine ⟨?_, fun _ _ hon => (nomatch hon), fun _ _ hp => ?_, fun hf => ?_⟩
    · change (if some c = some on then a.journal.sendNext + 1 else a.journal.sendNext) + 0 =
        n + (sentOn (a.sends.map (Send.settle true)) c).length
      rw [hlength, ← hcursor]
      by_cases ho : on = c
      · rw [if_pos ho, if_pos (congrArg some ho.symm)]
      · rw [if_neg ho, if_neg (fun he => ho (Option.some.inj he).symm)]
    · exact absurd hp (h.busy (by rw [hsending]; simp))
    · change a.committed ≤ (if some c = some on then a.journal.sendNext + 1 else a.journal.sendNext) + 0
      have hle := hcommitted hf
      by_cases ho : on = c
      · rw [if_pos ho] at hle
        rwa [if_pos (congrArg some ho.symm)]
      · rw [if_neg ho] at hle
        rwa [if_neg (fun he => ho (Option.some.inj he).symm)]

/-- Once a send of its is done, a pump goes on with what is next on its connection, or is
done. Another pump waits if its connection was replaced. -/
theorem Journaled.sendSettles {ok : Bool} (h : Journaled connection connections a)
    (hconnection : ∀ c ∈ connection, c + 1 = connections)
    (hstep : a.sendSettles connection ok = some a') : Journaled connection connections a' := by
  have hwaits : ∀ on ∈ a.journal.sending.on, ∀ c ∈ connection, ∀ n, a.starts.get c = some n →
      a.revoked = false → c ≠ on → a.journal.pumps.length < 2 → False := by
    intro on hon c hc n hn hr hne hlt
    have := (h.current c hc n hn).stale hr on hon (Ne.symm hne)
    omega
  unfold ActiveRun.sendSettles at hstep
  split at hstep
  · cases hstep
  · rename_i on hsending
    have hpumps : a.journal.pumps ≠ [] := h.busy (by rw [hsending]; simp)
    rw [hsending] at hwaits
    -- Only the session's binding was being sent.
    have hdone : ∀ bound failedOn, a.failedOn ⊆ failedOn → Journaled connection connections { a with
        journal := { a.journal with sending := .idle, sessionBoundSent := bound }, failedOn } := by
      intro bound failedOn hsub
      have hpending := h.pending
      rw [hsending] at hpending
      refine ⟨⟨h.first_le, h.covered_le, h.committed_le, h.ordinals, h.nextOrdinal, h.entries, h.bytes⟩,
        ⟨h.starts, h.bound, hpending, fun s hs hf => hsub (h.failed s hs hf), h.numbered,
          fun hne => absurd rfl hne, fun _ hc => nomatch hc⟩, fun c hc n hn => ?_⟩
      have hcurrent := h.current c hc n hn
      have hcursor := hcurrent.cursor
      have hcommitted := hcurrent.committed
      rw [hsending] at hcursor hcommitted
      exact ⟨hcursor, fun _ _ hon => (nomatch hon), fun _ _ hp => absurd hp hpumps,
        fun hf => hcommitted fun hmem => hf (hsub hmem)⟩
    split at hstep
    · obtain rfl := Option.some.inj hstep
      refine (hdone a.journal.sessionBoundSent (on :: a.failedOn) (List.subset_cons_self ..)).finish_idle
        hpumps fun c hc n hn hr hf hlt => ?_
      exact (hwaits on rfl c hc n hn hr (fun he => hf (he ▸ List.mem_cons_self)) hlt).elim
    split at hstep
    · rename_i hreplaced
      obtain rfl := Option.some.inj hstep
      refine (hdone a.journal.sessionBoundSent a.failedOn (List.Subset.refl _)).finish_idle hpumps
        fun c hc n hn hr _ hlt => ?_
      exact (hwaits on rfl c hc n hn hr (fun he => hreplaced (he ▸ hc)) hlt).elim
    · rename_i hcurrent
      rw [ne_eq, not_not] at hcurrent
      subst hcurrent
      obtain rfl := hconnection on rfl
      obtain rfl := Option.some.inj hstep
      exact (hdone true a.failedOn (List.Subset.refl _)).sendOn_idle hpumps
  · rename_i on ordinal hsending
    have hpumps : a.journal.pumps ≠ [] := h.busy (by rw [hsending]; simp)
    rw [hsending] at hwaits
    dsimp only at hstep
    split at hstep
    · rename_i hfails
      obtain rfl : ok = false := by simpa using hfails
      obtain rfl := Option.some.inj hstep
      refine (h.sendFails hsending).finish_idle hpumps fun c hc n hn hr hf hlt => ?_
      exact (hwaits on rfl c hc n hn hr (fun he => hf (he ▸ List.mem_cons_self)) hlt).elim
    rename_i hsucceeds
    obtain rfl : ok = true := by simpa using hsucceeds
    have hdone := h.sendSucceeds hsending
    split at hstep
    · rename_i hreplaced
      rw [if_neg hreplaced] at hdone
      obtain rfl := Option.some.inj hstep
      refine hdone.finish_idle hpumps fun c hc n hn hr _ hlt => ?_
      exact (hwaits on rfl c hc n hn hr (fun he => hreplaced (he ▸ hc)) hlt).elim
    · rename_i hcurrent
      rw [ne_eq, not_not] at hcurrent
      subst hcurrent
      rw [if_pos rfl] at hdone
      obtain rfl := hconnection on rfl
      obtain rfl := Option.some.inj hstep
      exact hdone.sendOn_idle hpumps

/-! ## What the Host says -/

theorem covered_discard (journal : RunJournal) (below : Nat) :
    (journal.discard below).covered = max journal.covered below := by
  have hloop : ∀ (entries : List (Nat × JournalEntry)) (j : RunJournal),
      (entries.foldl (fun j e =>
        if e.1 < below then { j with events := j.events.delete e.1, bytes := j.bytes - e.2.bytes }
        else j) j).covered = j.covered := by
    intro entries
    induction entries with
    | nil => intro _; rfl
    | cons e entries ih =>
      intro j
      rw [List.foldl_cons, ih]
      split <;> rfl
  exact hloop _ _

/-- The loop forgets each event below the ordinal, and its bytes. -/
theorem discard_events (journal : RunJournal) (below : Nat)
    (hbytes : journal.bytes = (journal.events.values.map JournalEntry.bytes).sum) :
    (journal.discard below).events.entries = journal.events.entries.filter (fun e => below ≤ e.1) ∧
    (journal.discard below).bytes =
      ((journal.discard below).events.values.map JournalEntry.bytes).sum := by
  have hloop : ∀ (entries kept : List (Nat × JournalEntry)) (j : RunJournal),
      j.events.entries = kept ++ entries →
      j.bytes = (j.events.values.map JournalEntry.bytes).sum →
      let j' := entries.foldl (fun j e =>
        if e.1 < below then { j with events := j.events.delete e.1, bytes := j.bytes - e.2.bytes }
        else j) j
      j'.events.entries = kept ++ entries.filter (fun e => below ≤ e.1) ∧
        j'.bytes = (j'.events.values.map JournalEntry.bytes).sum := by
    intro entries
    induction entries with
    | nil => exact fun kept j hentries hsum => ⟨hentries, hsum⟩
    | cons e entries ih =>
      intro kept j hentries hsum
      rw [List.foldl_cons]
      by_cases he : e.1 < below
      · -- The first entry left goes, and only that.
        have hnodup := j.events.nodup
        rw [hentries, List.map_append, List.map_cons, List.nodup_append] at hnodup
        have hkept : ∀ x ∈ kept, x.1 ≠ e.1 := fun x hx =>
          hnodup.2.2 x.1 (List.mem_map_of_mem hx) e.1 List.mem_cons_self
        have hrest : ∀ x ∈ entries, x.1 ≠ e.1 := fun x hx heq =>
          (List.nodup_cons.mp hnodup.2.1).1 (heq ▸ List.mem_map_of_mem hx)
        have hdelete : (j.events.delete e.1).entries = kept ++ entries := by
          change j.events.entries.filter (fun x => x.1 ≠ e.1) = kept ++ entries
          rw [hentries, List.filter_append, List.filter_cons_of_neg (by simp),
            List.filter_eq_self.mpr (by simpa using hkept), List.filter_eq_self.mpr (by simpa using hrest)]
        rw [if_pos he, List.filter_cons_of_neg (by simpa using he)]
        refine ih kept _ hdelete ?_
        simp only [OrderedMap.values, hdelete]
        rw [hsum, OrderedMap.values, hentries]
        simp only [List.map_append, List.map_cons, List.sum_append, List.sum_cons]
        omega
      · rw [if_neg he, List.filter_cons_of_pos (by simpa using he)]
        have := ih (kept ++ [e]) j (by rw [hentries, List.append_assoc]; rfl) hsum
        rw [List.append_assoc] at this
        exact this
  exact hloop _ [] _ rfl hbytes

/-- What the Host has committed can be forgotten. -/
theorem Held.discard (h : Held a) {below : Nat} (hbelow : below ≤ a.committed) :
    Held { a with journal := a.journal.discard below } := by
  obtain ⟨hentries, hbytes⟩ := discard_events a.journal below h.bytes
  have hcovered := covered_discard a.journal below
  have hfirst := h.first_le
  have hle := h.covered_le
  refine ⟨?_, ?_, h.committed_le, h.ordinals, h.nextOrdinal, ?_, hbytes⟩
  · simp only [hcovered]; omega
  · simp only [hcovered]; omega
  · simp only [hentries, hcovered, h.entries, List.filter_map, List.filter_filter]
    congr 1
    refine List.filter_congr fun e _ => ?_
    rw [Bool.eq_iff_iff]
    simp only [Function.comp, Bool.and_eq_true, decide_eq_true_eq]
    omega

theorem get_discard_eq_none (h : Held a) {below k : Nat} (hget : a.journal.events.get k = none) :
    (a.journal.discard below).events.get k = none := by
  obtain ⟨hentries, -⟩ := discard_events a.journal below h.bytes
  rw [← Option.not_isSome_iff_eq_none, ← OrderedMap.mem_keys, OrderedMap.keys, hentries] at *
  intro hmem
  obtain ⟨e, he, rfl⟩ := List.mem_map.mp hmem
  exact hget (List.mem_map_of_mem (List.mem_of_mem_filter he))

/-- Of what is sent, forgetting events changes nothing. -/
theorem Sent.discard (h : Sent connections a) (below : Nat) :
    Sent connections { a with journal := a.journal.discard below } := by
  have hdiscards := discards_discard below a.journal
  refine ⟨fun c n hn => ?_, h.bound, ?_, h.failed, h.numbered, ?_, ?_⟩
  · have := h.starts c n hn
    refine ⟨this.1, ?_⟩
    simp only [covered_discard]
    omega
  · simp only [hdiscards.sending]; exact h.pending
  · simp only [hdiscards.sending, hdiscards.pumps]; exact h.busy
  · simp only [hdiscards.sending]; exact h.on

theorem Journaled.discard (h : Journaled connection connections a) {below : Nat} (hbelow : below ≤ a.committed) :
    Journaled connection connections { a with journal := a.journal.discard below } := by
  have hdiscards := discards_discard below a.journal
  refine ⟨h.toHeld.discard hbelow, h.toSent.discard below, fun c hc n hn => ?_⟩
  have hcurrent := h.current c hc n hn
  refine ⟨?_, ?_, fun hr hf hp => ?_, ?_⟩
  · simp only [hdiscards.sending, hdiscards.sendNext]; exact hcurrent.cursor
  · simp only [hdiscards.sending, hdiscards.pumps]; exact hcurrent.stale
  · rw [hdiscards.pumps] at hp
    rw [hdiscards.sendNext]
    exact get_discard_eq_none h.toHeld (hcurrent.quiet hr hf hp)
  · simp only [hdiscards.sending, hdiscards.sendNext]; exact hcurrent.committed

/-- The Host commits an event sent on the current connection. -/
theorem Journaled.commits (h : Journaled connection connections a)
    (hconnection : ∀ c ∈ connection, c + 1 = connections) {s : Send} (hs : s ∈ a.sends)
    (hlast : s.connection + 1 = connections) (hordinal : s.ordinal = a.committed) :
    Journaled connection connections { a with committed := a.committed + 1 } := by
  refine ⟨⟨h.first_le, Nat.le_succ_of_le h.covered_le, ?_, h.ordinals, h.nextOrdinal, h.entries, h.bytes⟩,
    ⟨h.starts, h.bound, h.pending, h.failed, h.numbered, h.busy, h.on⟩, fun c hc n hn => ?_⟩
  · have := (h.bound s hs).1
    simp only
    omega
  · have hcurrent := h.current c hc n hn
    refine ⟨hcurrent.cursor, hcurrent.stale, hcurrent.quiet, fun hf => ?_⟩
    obtain rfl : s.connection = c := by have := hconnection c hc; omega
    -- It is one of those counted there, as none of them failed.
    have hsent : s ∈ sentOn a.sends s.connection :=
      mem_sentOn.mpr ⟨hs, rfl, fun hstatus => hf (h.failed s hs hstatus)⟩
    have hmem := List.mem_map_of_mem (f := Send.ordinal) hsent
    rw [h.numbered _ n hn, List.mem_range'_1] at hmem
    have := hcurrent.cursor
    simp only
    omega

end Opensteer.RunnerRuntime
