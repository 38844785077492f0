import Opensteer.Framework.AscendingLog
import Opensteer.LiveProgress.Drawing

/-!
# The client's streams mirror the Host's

A client that starts from the registry's frames, and is given every frame it
forwards and every durable event, has the streams of every Run the registry
knows, and sees no gap (`ledger_mirrors`): both read the same feeds, complete the
same streams, and what is forwarded reads the same on both sides
(`Feed.readOn_pass`). That needs Runs that end for good and keep to their Thread
(`unmirrored_runs`): the client goes on ignoring an ended Run the registry learns
again, and takes a Run to be of the Thread it first hears of.
-/

namespace Opensteer.LiveProgress

variable {o : MirrorOptions} {id : String} {R : RunId}

/-! ## What holds on both sides -/

variable {home : RunId → ThreadId × WorkspaceId} {closed : RunId → Prop} {reach opened : Nat → Prop}
  {W : WorkspaceId} {r : LiveRunRegistry} {l : LiveStreamLedger} {event : AgentEvent}

/-- The registry knows only Runs at home that have not ended. -/
structure RegistryOk (home : RunId → ThreadId × WorkspaceId) (closed : RunId → Prop)
    (reach : Nat → Prop) (r : LiveRunRegistry) : Prop where
  runId : ∀ R state, r.runs.get R = some state → state.runId = R
  home : ∀ R state, r.runs.get R = some state → (state.threadId, state.workspaceId) = home R
  live : ∀ R state, r.runs.get R = some state → ¬ closed R
  keys : ∀ R state id s, r.runs.get R = some state → state.streams.get id = some s →
    liveStreamKeyId s.key = id
  reached : ∀ R state, r.runs.get R = some state → reach state.afterSequence

/-- What the ledger has drawn of a Run follows what the registry keeps of it. -/
structure FollowsRun (home : RunId → ThreadId × WorkspaceId) (opened : Nat → Prop)
    (W : WorkspaceId) (R : RunId) (kept : Option LiveRunState) (drawn : Option LedgerRun) : Prop where
  known : ∀ run ∈ drawn, ∃ state ∈ kept, state.workspaceId = W
  same : ∀ state ∈ kept, state.workspaceId = W →
    ∀ id, (drawn.bind fun run => run.view id) = state.view id
  home : ∀ run ∈ drawn, (run.threadId, run.workspaceId) = home R
  opened : ∀ run ∈ drawn, ∀ id stream, run.streams.get id = some stream → opened stream.openedAfter
  tombs : ∀ run ∈ drawn, ∀ state ∈ kept, ∀ id tombstone,
    run.tombstones.get id = some tombstone → tombstone ≤ state.afterSequence

/-- The ledger has the registry's streams of the Workspace's Runs. -/
structure Followed (home : RunId → ThreadId × WorkspaceId) (closed : RunId → Prop)
    (opened : Nat → Prop) (W : WorkspaceId) (r : LiveRunRegistry) (l : LiveStreamLedger) : Prop where
  ended : ∀ R ∈ l.endedRuns, closed R
  runs : ∀ R, FollowsRun home opened W R (r.runs.get R) (l.runs.get R)

/-- The Runs that have ended once the event is committed. -/
def closedBy (closed : RunId → Prop) (event : AgentEvent) (R : RunId) : Prop :=
  closed R ∨ event.runId = some R ∧ isTerminal event.data = true

/-- An event of a Run at home that has not ended. -/
def AtHome (home : RunId → ThreadId × WorkspaceId) (closed : RunId → Prop) (event : AgentEvent) :
    Prop :=
  ∀ R ∈ event.runId, (event.threadId, event.workspaceId) = home R ∧ ¬ closed R

theorem RegistryOk.observeEvent {o : RegistryOptions} (now : Nat) {sequence : Nat}
    (h : RegistryOk home closed reach r) (hhome : AtHome home closed event)
    (hroom : HasRoom o r event) (hreach : reach sequence) :
    RegistryOk home (closedBy closed event) reach (observeEvent o now sequence r event) := by
  cases hrun : event.runId with
  | none =>
    have hsame : LiveProgress.observeEvent o now sequence r event = r := by
      unfold LiveProgress.observeEvent
      rw [hrun]
    rw [hsame]
    refine ⟨h.runId, h.home, fun R state hs hc => ?_, h.keys, h.reached⟩
    rcases hc with hc | ⟨hc, -⟩
    · exact h.live R state hs hc
    · rw [hrun] at hc
      cases hc
  | some R =>
    obtain ⟨hat, hopen⟩ := hhome R hrun
    have hstate : ∀ state, r.runs.get R = some state →
        state.threadId = event.threadId ∧ state.workspaceId = event.workspaceId := fun state hs =>
      Prod.mk.inj ((h.home R state hs).trans hat.symm)
    obtain ⟨after, hget, hnone, hsome⟩ :=
      observeEvent_spec o now sequence r event hrun hroom (h.runId R) hstate
    have hcases : ∀ R' state, (LiveProgress.observeEvent o now sequence r event).runs.get R' =
        some state → (R ≠ R' ∧ r.runs.get R' = some state) ∨
          (R = R' ∧ isTerminal event.data = false ∧
            Observed sequence R event ((restarted r R event).get R) state) := by
      intro R' state hs
      rw [hget] at hs
      split at hs
      · rename_i hR
        cases ht : isTerminal event.data with
        | true =>
          rw [hnone ht] at hs
          cases hs
        | false =>
          obtain ⟨state', hafter, hobserved⟩ := hsome ht
          rw [hafter] at hs
          exact .inr ⟨hR, rfl, Option.some.inj hs ▸ hobserved⟩
      · exact .inl ⟨‹_›, hs⟩
    refine ⟨fun R' state hs => ?_, fun R' state hs => ?_, fun R' state hs hc => ?_,
      fun R' state id s hs hstream => ?_, fun R' state hs => ?_⟩
    all_goals rcases hcases R' state hs with ⟨hne, hs⟩ | ⟨rfl, ht, hobserved⟩
    · exact h.runId R' state hs
    · exact hobserved.runId
    · exact h.home R' state hs
    · rw [hobserved.threadId, hobserved.workspaceId]
      exact hat
    · rcases hc with hc | ⟨hc, -⟩
      · exact h.live R' state hs hc
      · exact hne (Option.some.inj (hrun.symm.trans hc))
    · rcases hc with hc | ⟨-, hc⟩
      · exact hopen hc
      · rw [ht] at hc
        cases hc
    · exact h.keys R' state id s hs hstream
    · rw [hobserved.streams] at hstream
      split at hstream
      · cases hstream
      · obtain ⟨b, hb, hstream⟩ := Option.bind_eq_some_iff.mp hstream
        exact h.keys R b id s (get_restarted hb).1 hstream
    · exact h.reached R' state hs
    · rcases hobserved.afterOr with he | ⟨b, hb, he⟩
      · rw [he]
        exact hreach
      · rw [he]
        exact h.reached R b (get_restarted hb).1

namespace FollowsRun

variable {state : LiveRunState} {kept : Option LiveRunState} {drawn : Option LedgerRun}
  {sequence : Nat}

theorem nil : FollowsRun home opened W R none none := by
  refine ⟨?_, ?_, ?_, ?_, ?_⟩ <;> simp

theorem eq_none (h : FollowsRun home opened W R none drawn) : drawn = none := by
  cases drawn with
  | none => rfl
  | some run =>
    obtain ⟨state, hs, -⟩ := h.known run rfl
    cases hs

/-- What the registry keeps of the Run's streams after an event. -/
theorem view_observed (h : FollowsRun home opened W R kept drawn)
    (hobserved : Observed sequence R event kept state)
    (hkept : ∀ before ∈ kept, before.workspaceId = W) (id : String) :
    state.view id =
      if completes event id then none else drawn.bind fun run => run.view id := by
  rw [LiveRunState.view, hobserved.streams id]
  split
  · rfl
  · cases kept with
    | none =>
      rw [h.eq_none]
      rfl
    | some before =>
      rw [h.same before rfl (hkept before rfl) id]
      rfl

theorem tombs_observed (h : FollowsRun home opened W R kept drawn)
    (hobserved : Observed sequence R event kept state) :
    ∀ run ∈ drawn, ∀ id tombstone, run.tombstones.get id = some tombstone →
      tombstone ≤ state.afterSequence := by
  intro run hr id tombstone ht
  obtain ⟨before, hb, -⟩ := h.known run hr
  exact Nat.le_trans (h.tombs run hr before hb id tombstone ht) (hobserved.mono before hb)

/-- An event that completes no stream of the Run. -/
theorem observe (h : FollowsRun home opened W R kept drawn)
    (hobserved : Observed sequence R event kept state) (hW : event.workspaceId = W)
    (hkept : ∀ before ∈ kept, before.workspaceId = W)
    (hkeep : ∀ id, completes event id = false) : FollowsRun home opened W R (some state) drawn where
  known _ _ := ⟨state, rfl, hobserved.workspaceId.trans hW⟩
  same := by
    rintro _ ⟨⟩ - id
    rw [h.view_observed hobserved hkept id, hkeep id]
    rfl
  home := h.home
  opened := h.opened
  tombs := by
    rintro run hr _ ⟨⟩
    exact h.tombs_observed hobserved run hr

/-- An event that completes a stream of the Run: the ledger lets go of what it
drew before, and lets no frame from before open the stream again. -/
theorem complete (h : FollowsRun home opened W R kept drawn)
    (hobserved : Observed sequence R event kept state) (hW : event.workspaceId = W)
    (hkept : ∀ before ∈ kept, before.workspaceId = W) {key : LiveStreamKey}
    (hkey : completedStreamKey event.data = some key) (hopened : ∀ n, opened n → n < event.sequence)
    (hsequence : event.sequence ≤ sequence) {run : LedgerRun}
    (hrun : drawn = some run ∨ drawn = none ∧ run.streams = .empty ∧ run.tombstones = .empty ∧
      (run.threadId, run.workspaceId) = home R) :
    FollowsRun home opened W R (some state)
      (some (completeLedgerStream run (liveStreamKeyId key) event.sequence)) := by
  have hview : ∀ id, (drawn.bind fun run => run.view id) = run.view id := by
    intro id
    rcases hrun with rfl | ⟨rfl, hs, -⟩
    · rfl
    · rw [LedgerRun.view, hs]
      rfl
  have hhome : (run.threadId, run.workspaceId) = home R := by
    rcases hrun with rfl | ⟨-, -, -, hhome⟩
    · exact h.home run rfl
    · exact hhome
  have hstreams : ∀ id stream, run.streams.get id = some stream → opened stream.openedAfter := by
    rcases hrun with rfl | ⟨-, hs, -⟩
    · exact h.opened run rfl
    · intro id stream hstream
      rw [hs] at hstream
      cases hstream
  have htombs : ∀ id tombstone, run.tombstones.get id = some tombstone →
      tombstone ≤ state.afterSequence := by
    rcases hrun with rfl | ⟨-, -, ht, -⟩
    · exact h.tombs_observed hobserved run rfl
    · intro id tombstone htomb
      rw [ht] at htomb
      cases htomb
  have hget : ∀ id, (completeLedgerStream run (liveStreamKeyId key) event.sequence).streams.get id =
      if liveStreamKeyId key = id then none else run.streams.get id := by
    intro id
    unfold completeLedgerStream
    dsimp only
    cases hs : run.streams.get (liveStreamKeyId key) with
    | some stream =>
      have hlt := hopened _ (hstreams _ stream hs)
      rw [Option.any_some, if_pos (decide_eq_true hlt), OrderedMap.get_delete]
    | none =>
      rw [Option.any_none, if_neg Bool.false_ne_true]
      split
      · rename_i hid
        rw [← hid, hs]
      · rfl
  refine ⟨fun _ _ => ⟨state, rfl, hobserved.workspaceId.trans hW⟩, ?_, ?_, ?_, ?_⟩
  · rintro _ ⟨⟩ - id
    rw [h.view_observed hobserved hkept id, hview id, completes, hkey, Option.any_some,
      Option.bind_some, LedgerRun.view, hget id]
    by_cases hid : liveStreamKeyId key = id
    · simp only [hid, if_true, decide_true, Option.map_none]
    · simp only [hid, if_false, decide_false, Bool.false_eq_true, LedgerRun.view]
  · rintro _ ⟨⟩
    exact hhome
  · rintro _ ⟨⟩ id stream hs
    rw [hget id] at hs
    split at hs
    · cases hs
    · exact hstreams id stream hs
  · rintro _ ⟨⟩ _ ⟨⟩ id tombstone ht
    unfold completeLedgerStream at ht
    dsimp only at ht
    split at ht
    · rw [OrderedMap.get_set] at ht
      split at ht
      · obtain rfl := Option.some.inj ht
        exact Nat.le_trans hsequence hobserved.after
      · exact htombs id tombstone ht
    · exact htombs id tombstone ht

/-- A Run of another Workspace the ledger has not drawn. -/
theorem away (hW : ∀ state ∈ kept, state.workspaceId ≠ W) : FollowsRun home opened W R kept none where
  known := by simp
  same state hs hw := absurd hw (hW state hs)
  home := by simp
  opened := by simp
  tombs := by simp

end FollowsRun

/-- The registry observes an event, and the client is given it if it is of its
Workspace. -/
theorem Followed.observeEvent {o : RegistryOptions} (now : Nat) {sequence : Nat}
    (h : Followed home closed opened W r l) (hr : RegistryOk home closed reach r)
    (hhome : AtHome home closed event) (hroom : HasRoom o r event)
    (hopened : ∀ n, opened n → n < event.sequence) (hsequence : event.sequence ≤ sequence) :
    Followed home (closedBy closed event) opened W (observeEvent o now sequence r event)
      (if event.workspaceId = W then l.complete event else l) := by
  cases hrun : event.runId with
  | none =>
    have hsame : LiveProgress.observeEvent o now sequence r event = r := by
      unfold LiveProgress.observeEvent
      rw [hrun]
    have hcomplete : l.complete event = l := by
      unfold LiveStreamLedger.complete
      rw [hrun]
    rw [hsame, hcomplete, ite_self]
    exact ⟨fun R hR => .inl (h.ended R hR), h.runs⟩
  | some R =>
    obtain ⟨hat, hopen⟩ := hhome R hrun
    have hstate : ∀ state, r.runs.get R = some state →
        state.threadId = event.threadId ∧ state.workspaceId = event.workspaceId := fun state hs =>
      Prod.mk.inj ((hr.home R state hs).trans hat.symm)
    have hdrawn : ∀ run, l.runs.get R = some run →
        run.threadId = event.threadId ∧ run.workspaceId = event.workspaceId := fun run hs =>
      Prod.mk.inj (((h.runs R).home run hs).trans hat.symm)
    obtain ⟨after, hget, hnone, hsome⟩ :=
      observeEvent_spec o now sequence r event hrun hroom (hr.runId R) hstate
    by_cases hW : event.workspaceId = W
    · rw [if_pos hW]
      have hended : isTerminal event.data = false → R ∉ l.endedRuns := fun _ hR =>
        hopen (h.ended R hR)
      obtain ⟨hmem, drawn, hget', hcases⟩ := completeEvent_spec l event hrun hended hdrawn
      refine ⟨fun R' hR' => ?_, fun R' => ?_⟩
      · rcases hmem R' hR' with hR' | ⟨rfl, ht⟩
        · exact .inl (h.ended R' hR')
        · exact .inr ⟨hrun, ht⟩
      rw [hget, hget']
      by_cases hR : R = R'
      swap
      · rw [if_neg hR, if_neg hR]
        exact h.runs R'
      rw [if_pos hR, if_pos hR]
      subst hR
      have hkept : ∀ before ∈ (restarted r R event).get R, before.workspaceId = W := fun before hb =>
        (hstate before (get_restarted hb).1).2.trans hW
      have hrestarted : event.data ≠ .runRestarted → (restarted r R event).get R = r.runs.get R := by
        intro hne
        rw [restarted, if_neg hne]
      cases hterminal : isTerminal event.data with
      | true =>
        rw [hnone hterminal]
        rcases hcases with ⟨-, rfl⟩ | ⟨hlive, -⟩
        · exact .nil
        · rw [hlive] at hterminal
          cases hterminal
      | false =>
        obtain ⟨state, rfl, hobserved⟩ := hsome hterminal
        rcases hcases with ⟨hrestart, rfl⟩ | ⟨-, hne, ⟨hkey, rfl⟩ | ⟨key, hkey, rfl⟩⟩
        · have hrestart : event.data = .runRestarted := by
            rcases hrestart with ht | hrestart
            · rw [hterminal] at ht
              cases ht
            · exact hrestart
          have hbefore : (restarted r R event).get R = none := by
            rw [restarted, if_pos hrestart, OrderedMap.get_delete, if_pos rfl]
          rw [hbefore] at hobserved
          refine FollowsRun.nil.observe hobserved hW (by simp) fun id => ?_
          rw [completes, hrestart]
          rfl
        · refine FollowsRun.observe (hrestarted hne ▸ h.runs R) hobserved hW hkept fun id => ?_
          rw [completes, hkey]
          rfl
        · refine FollowsRun.complete (hrestarted hne ▸ h.runs R) hobserved hW hkept hkey hopened
            hsequence ?_
          cases l.runs.get R with
          | some run => exact .inl rfl
          | none => exact .inr ⟨rfl, rfl, rfl, hat⟩
    · rw [if_neg hW]
      refine ⟨fun R' hR' => .inl (h.ended R' hR'), fun R' => ?_⟩
      rw [hget]
      split
      · rename_i hR
        subst hR
        have hnot : l.runs.get R = none := by
          cases hs : l.runs.get R with
          | none => rfl
          | some run =>
            obtain ⟨state, hk, hw⟩ := (h.runs R).known run hs
            exact absurd ((hstate state hk).2.symm.trans hw) hW
        rw [hnot]
        refine .away fun state hs => ?_
        cases hterminal : isTerminal event.data with
        | true =>
          rw [hnone hterminal] at hs
          cases hs
        | false =>
          obtain ⟨state', rfl, hobserved⟩ := hsome hterminal
          obtain rfl := Option.some.inj hs
          exact hobserved.workspaceId.trans_ne hW
      · exact h.runs R'

/-! ## Histories of events -/

/-- The Run has ended. -/
def Ended (events : List AgentEvent) (R : RunId) : Prop :=
  ∃ event ∈ events, event.runId = some R ∧ isTerminal event.data = true

/-- The events come to the sequence. -/
def Reach (events : List AgentEvent) (n : Nat) : Prop := ∃ event ∈ events, n ≤ event.sequence

/-- The first event does not end the Run of the second. -/
def LetsFollow (a b : AgentEvent) : Prop := isTerminal a.data = true → ∀ R ∈ a.runId, b.runId ≠ some R

/-- The event names the Thread and Workspace its Run is in. -/
def NamesHome (home : RunId → ThreadId × WorkspaceId) (event : AgentEvent) : Prop :=
  ∀ R ∈ event.runId, (event.threadId, event.workspaceId) = home R

theorem closedBy_ended (events : List AgentEvent) (event : AgentEvent) :
    closedBy (Ended events) event = Ended (events ++ [event]) := by
  funext R
  simp [closedBy, Ended, or_and_right, exists_or]

theorem Reach.mono {events events' : List AgentEvent} (h : events ⊆ events') {n : Nat}
    (hn : Reach events n) : Reach events' n := by
  obtain ⟨event, he, hle⟩ := hn
  exact ⟨event, h he, hle⟩

theorem foldl_max_spec (ns : List Nat) (m : Nat) :
    m ≤ ns.foldl max m ∧ (∀ n ∈ ns, n ≤ ns.foldl max m) ∧ (ns.foldl max m = m ∨ ns.foldl max m ∈ ns) := by
  induction ns generalizing m with
  | nil => simp
  | cons n ns ih =>
    obtain ⟨hm, hns, hmem⟩ := ih (max m n)
    refine ⟨by simp only [List.foldl_cons]; omega, ?_, ?_⟩
    · intro k hk
      rcases List.mem_cons.mp hk with rfl | hk
      · simp only [List.foldl_cons]
        omega
      · exact hns k hk
    · rw [List.foldl_cons, List.mem_cons]
      rcases hmem with he | hmem
      · omega
      · exact .inr (.inr hmem)

/-- The last sequence of a transaction is one of its events'. -/
theorem transactionSequence_spec (events : List AgentEvent) :
    (∀ event ∈ events, event.sequence ≤ (events.map AgentEvent.sequence).foldl max 0) ∧
    (events ≠ [] → Reach events ((events.map AgentEvent.sequence).foldl max 0)) := by
  obtain ⟨-, hle, hmem⟩ := foldl_max_spec (events.map AgentEvent.sequence) 0
  refine ⟨fun event he => hle _ (List.mem_map_of_mem he), fun hne => ?_⟩
  rcases hmem with hzero | hmem
  · obtain ⟨event, he⟩ := List.exists_mem_of_ne_nil events hne
    exact ⟨event, he, by omega⟩
  · obtain ⟨event, he, heq⟩ := List.mem_map.mp hmem
    exact ⟨event, he, Nat.le_of_eq heq.symm⟩

/-- What is kept while a transaction's events are observed and given to the client,
one by one. -/
theorem Followed.observeEvents {o : RegistryOptions} (now : Nat) {sequence : Nat}
    {pre events : List AgentEvent} (hr : RegistryOk home (Ended pre) reach r)
    (hhome : ∀ event ∈ events, NamesHome home event)
    (hfollow : (pre ++ events).Pairwise LetsFollow) (hroom : WithinRuns o now sequence r events)
    (hreach : reach sequence) (hopened : ∀ event ∈ events, ∀ n, opened n → n < event.sequence)
    (hsequence : ∀ event ∈ events, event.sequence ≤ sequence) :
    RegistryOk home (Ended (pre ++ events)) reach
      (events.foldl (LiveProgress.observeEvent o now sequence) r) ∧
    ∀ l, Followed home (Ended pre) opened W r l →
      Followed home (Ended (pre ++ events)) opened W
        (events.foldl (LiveProgress.observeEvent o now sequence) r)
        ((events.filter fun event => event.workspaceId = W).foldl LiveStreamLedger.complete l) := by
  induction events generalizing pre r with
  | nil =>
    rw [List.append_nil]
    exact ⟨hr, fun l h => h⟩
  | cons event events ih =>
    obtain ⟨hevent, hevents⟩ := List.forall_mem_cons.mp hhome
    obtain ⟨hopenedEvent, hopenedEvents⟩ := List.forall_mem_cons.mp hopened
    obtain ⟨hsequenceEvent, hsequenceEvents⟩ := List.forall_mem_cons.mp hsequence
    have hat : AtHome home (Ended pre) event := by
      refine fun R hR => ⟨hevent R hR, ?_⟩
      rintro ⟨a, ha, haR, hterminal⟩
      exact (List.pairwise_append.mp hfollow).2.2 a ha event List.mem_cons_self hterminal R haR hR
    have hr' := hr.observeEvent now hat hroom.1 hreach
    rw [closedBy_ended] at hr'
    rw [List.append_cons] at hfollow ⊢
    obtain ⟨hok, hfollowed⟩ := ih hr' hevents hfollow hroom.2 hopenedEvents hsequenceEvents
    refine ⟨hok, fun l h => ?_⟩
    have h' := h.observeEvent now hr hat hroom.1 hopenedEvent hsequenceEvent
    rw [closedBy_ended] at h'
    have hrest := hfollowed _ h'
    split at hrest
    · rename_i hW
      rw [List.filter_cons_of_pos (by simpa using hW)]
      exact hrest
    · rename_i hW
      rw [List.filter_cons_of_neg (by simpa using hW)]
      exact hrest

/-! ## Frames of known Runs -/

/-- A frame of a Run the registry knows, in the client's Workspace, is drawn into the
view the ledger has of each of its streams. -/
theorem draw_spec (hr : RegistryOk home closed reach r) (hended : ∀ R ∈ l.endedRuns, closed R)
    (hhome : ∀ R run, l.runs.get R = some run → (run.threadId, run.workspaceId) = home R)
    {state : LiveRunState} (frame : LiveFrame)
    (hs : r.runs.get frame.progress.runId = some state)
    (hthread : state.threadId = frame.progress.threadId)
    (hworkspace : state.workspaceId = frame.progress.workspaceId)
    (htombs : ∀ run, l.runs.get frame.progress.runId = some run → ∀ id tombstone,
      run.tombstones.get id = some tombstone → tombstone ≤ frame.afterSequence)
    (hno : ∀ id, Feed.NoGaps tails (l.view frame.progress.runId id) (opsOf id frame.progress.items)) :
    (l.apply frame).1.endedRuns = l.endedRuns ∧ (l.apply frame).2.2 = false ∧
    ∃ run, DrawnFrom frame.afterSequence (openRun l frame.progress) run ∧
      (run.threadId, run.workspaceId) = home frame.progress.runId ∧
      (∀ R, (l.apply frame).1.runs.get R =
        if frame.progress.runId = R then some run else l.runs.get R) ∧
      ∀ id, run.view id = (opsOf id frame.progress.items).foldl (Feed.readOn tails)
        (l.view frame.progress.runId id) := by
  have hlive : frame.progress.runId ∉ l.endedRuns := fun hR => hr.live _ state hs (hended _ hR)
  have hstate : (frame.progress.threadId, frame.progress.workspaceId) = home frame.progress.runId := by
    rw [← hthread, ← hworkspace]
    exact hr.home _ state hs
  have hopen : (openRun l frame.progress).threadId = frame.progress.threadId ∧
      (openRun l frame.progress).workspaceId = frame.progress.workspaceId ∧
      ∀ id tombstone, (openRun l frame.progress).tombstones.get id = some tombstone →
        tombstone ≤ frame.afterSequence := by
    unfold openRun
    cases hrun : l.runs.get frame.progress.runId with
    | none => exact ⟨rfl, rfl, by simp⟩
    | some run =>
      obtain ⟨ht, hw⟩ := Prod.mk.inj ((hhome _ run hrun).trans hstate.symm)
      exact ⟨ht, hw, htombs run hrun⟩
  obtain ⟨hsame, ⟨run, hdrawn, hget, hview⟩, hgap⟩ :=
    apply_spec l frame hlive hopen.1 hopen.2.1 hopen.2.2
  refine ⟨hsame, hgap hno, run, hdrawn, ?_, hget, hview⟩
  obtain ⟨⟨streams, rfl⟩, -⟩ := hdrawn
  rw [← hstate, ← hopen.1, ← hopen.2.1]

/-- A stream of a Run that a frame is drawn into was there, or follows the frame. -/
theorem DrawnFrom.openedAfter {frame : LiveFrame} {run : LedgerRun}
    (h : DrawnFrom frame.afterSequence (openRun l frame.progress) run)
    (hafter : opened frame.afterSequence)
    (hopened : ∀ run, l.runs.get frame.progress.runId = some run →
      ∀ id stream, run.streams.get id = some stream → opened stream.openedAfter) :
    ∀ id stream, run.streams.get id = some stream → opened stream.openedAfter := by
  intro id stream hs
  rcases h.2 id stream hs with he | ⟨before, hb, he⟩
  · rw [he]
    exact hafter
  · rw [he]
    unfold openRun at hb
    cases hrun : l.runs.get frame.progress.runId with
    | none =>
      rw [hrun] at hb
      cases hb
    | some run =>
      rw [hrun] at hb
      exact hopened run hrun id before hb

/-- The registry with a Run's state set. -/
theorem RegistryOk.set (hr : RegistryOk home closed reach r) {state state' : LiveRunState}
    (hs : r.runs.get R = some state) (hkeyed : Keyed state'.streams)
    (hrest : state' = { state with streams := state'.streams, touchedAt := state'.touchedAt }) :
    RegistryOk home closed reach ⟨r.runs.set R state'⟩ := by
  have hcases : ∀ R' s, (r.runs.set R state').get R' = some s →
      (R = R' ∧ s = state') ∨ r.runs.get R' = some s := by
    intro R' s h
    rw [OrderedMap.get_set] at h
    split at h
    · exact .inl ⟨‹_›, (Option.some.inj h).symm⟩
    · exact .inr h
  refine ⟨fun R' s h => ?_, fun R' s h => ?_, fun R' s h => ?_, fun R' s id stream h => ?_,
    fun R' s h => ?_⟩
  all_goals rcases hcases R' s h with ⟨rfl, rfl⟩ | h
  · rw [hrest]
    exact hr.runId R state hs
  · exact hr.runId R' s h
  · rw [hrest]
    exact hr.home R state hs
  · exact hr.home R' s h
  · exact hr.live R state hs
  · exact hr.live R' s h
  · exact hkeyed id stream
  · exact hr.keys R' s id stream h
  · rw [hrest]
    exact hr.reached R state hs
  · exact hr.reached R' s h

/-! ## Progress -/

variable {ro : RegistryOptions} {progress : LiveRunProgress} {now : Nat} {state : LiveRunState}

/-- The registry with progress of a known Run applied. -/
theorem RegistryOk.apply (ro : RegistryOptions) (now : Nat) (hr : RegistryOk home closed reach r)
    (hs : r.runs.get progress.runId = some state) :
    RegistryOk home closed reach ⟨r.runs.set progress.runId
      (applyItems ro { state with touchedAt := now } progress.items).1⟩ := by
  have hkeyed : Keyed ({ state with touchedAt := now } : LiveRunState).streams := fun id s =>
    hr.keys _ state id s hs
  refine hr.set hs (applyItems_keyed ro hkeyed _) ?_
  obtain ⟨streams, hstreams⟩ := applyItems_streams ro { state with touchedAt := now } progress.items
  rw [hstreams]

/-- Progress of a known Run of the client's Workspace, and the frame it is given. -/
theorem Followed.apply (h : Followed home closed opened W r l) (hr : RegistryOk home closed reach r)
    (hs : r.runs.get progress.runId = some state) (hthread : state.threadId = progress.threadId)
    (hworkspace : state.workspaceId = progress.workspaceId) (hW : progress.workspaceId = W)
    (hadmits : Admits ro { state with touchedAt := now } progress.items)
    (hopened : opened state.afterSequence) {items : List LiveItem}
    (hitems : (applyItems ro { state with touchedAt := now } progress.items).2 = items) :
    Followed home closed opened W ⟨r.runs.set progress.runId
        (applyItems ro { state with touchedAt := now } progress.items).1⟩
      (l.apply ⟨state.afterSequence, { progress with items }⟩).1 ∧
    (l.apply ⟨state.afterSequence, { progress with items }⟩).2.2 = false := by
  have hforwarded := forwarded_spec ro { state with touchedAt := now } progress.items hadmits
  rw [hitems] at hforwarded
  have hview : ∀ id, l.view progress.runId id = state.view id :=
    (h.runs progress.runId).same state hs (hworkspace.trans hW)
  obtain ⟨hended, hgap, run, hdrawn, hhome, hget, hviews⟩ :=
    draw_spec hr h.ended (fun R run hrun => (h.runs R).home run hrun)
      ⟨state.afterSequence, { progress with items }⟩ hs hthread hworkspace
      (fun run hrun => (h.runs _).tombs run hrun state hs)
      fun id => by
        rw [hview id]
        exact (hforwarded id).2
  obtain ⟨streams, hstreams⟩ := applyItems_streams ro { state with touchedAt := now } progress.items
  refine ⟨⟨fun R hR => h.ended R (hended ▸ hR), fun R => ?_⟩, hgap⟩
  rw [hget, OrderedMap.get_set]
  split
  · rename_i hR
    refine ⟨fun _ _ => ⟨_, rfl, ?_⟩, ?_, ?_, ?_, ?_⟩
    · rw [hstreams]
      exact hworkspace.trans hW
    · rintro _ ⟨⟩ - id
      rw [Option.bind_some, hviews id, hview id]
      exact (hforwarded id).1
    · rintro _ ⟨⟩
      rw [← hR]
      exact hhome
    · rintro _ ⟨⟩
      exact hdrawn.openedAfter hopened fun run hrun => (h.runs _).opened run hrun
    · rintro _ ⟨⟩ _ ⟨⟩ id tombstone ht
      obtain ⟨⟨_, rfl⟩, -⟩ := hdrawn
      rw [hstreams]
      unfold openRun at ht
      cases hrun : l.runs.get progress.runId with
      | none => simp [hrun] at ht
      | some run =>
        simp only [hrun, Option.getD_some] at ht
        exact (h.runs _).tombs run hrun state hs id tombstone ht
  · exact h.runs R

/-- Progress of a known Run the client is given no frame of. -/
theorem Followed.applyUnseen (h : Followed home closed opened W r l)
    (hs : r.runs.get progress.runId = some state)
    (hadmits : Admits ro { state with touchedAt := now } progress.items)
    (hunseen : state.workspaceId ≠ W ∨
      (applyItems ro { state with touchedAt := now } progress.items).2 = []) :
    Followed home closed opened W ⟨r.runs.set progress.runId
        (applyItems ro { state with touchedAt := now } progress.items).1⟩ l := by
  have hforwarded := forwarded_spec ro { state with touchedAt := now } progress.items hadmits
  obtain ⟨streams, hstreams⟩ := applyItems_streams ro { state with touchedAt := now } progress.items
  have hfields : (applyItems ro { state with touchedAt := now } progress.items).1.workspaceId =
      state.workspaceId ∧ (applyItems ro { state with touchedAt := now } progress.items).1.afterSequence =
      state.afterSequence := by
    rw [hstreams]
    exact ⟨rfl, rfl⟩
  refine ⟨h.ended, fun R => ?_⟩
  rw [OrderedMap.get_set]
  split
  · rename_i hR
    subst hR
    obtain ⟨hknown, hsame, hhome, hopened, htombs⟩ := h.runs progress.runId
    rw [hs] at hknown hsame htombs
    refine ⟨fun run hr => ⟨_, rfl, hfields.1.trans ?_⟩, ?_, hhome, hopened, ?_⟩
    · obtain ⟨_, ⟨⟩, hw⟩ := hknown run hr
      exact hw
    · rintro _ ⟨⟩ hw id
      rcases hunseen with hne | hnil
      · exact absurd (hfields.1.symm.trans hw) hne
      · rw [← (hforwarded id).1, hnil]
        exact hsame state rfl (hfields.1.symm.trans hw) id
    · rintro run hr _ ⟨⟩
      rw [hfields.2]
      exact htombs run hr state rfl
  · exact h.runs R

/-! ## Starting from the registry's frames -/

/-- A frame that states the streams of a known Run of the Workspace. -/
def States (r : LiveRunRegistry) (W : WorkspaceId) (frame : LiveFrame) : Prop :=
  ∃ R state items, r.runs.get R = some state ∧ state.workspaceId = W ∧
    frame = replacementFrame state items ∧
    ∀ item ∈ items, ∃ key length text, item = .replace key length text

/-- What a ledger that was given such frames alone has drawn of a Run. -/
structure Stated (home : RunId → ThreadId × WorkspaceId) (opened : Nat → Prop) (W : WorkspaceId)
    (r : LiveRunRegistry) (l : LiveStreamLedger) : Prop where
  ended : l.endedRuns = []
  known : ∀ R run, l.runs.get R = some run → ∃ state, r.runs.get R = some state ∧ state.workspaceId = W
  home : ∀ R run, l.runs.get R = some run → (run.threadId, run.workspaceId) = home R
  opened : ∀ R run, l.runs.get R = some run → ∀ id stream, run.streams.get id = some stream →
    opened stream.openedAfter
  tombs : ∀ R run, l.runs.get R = some run → run.tombstones = .empty

/-- The operations on a stream of a Run in frames, in order. -/
def framesOps (R : RunId) (id : String) (frames : List LiveFrame) : List (Feed.Op UInt16 Text) :=
  opsOf id ((frames.filter fun frame => frame.progress.runId = R).flatMap fun frame =>
    frame.progress.items)

theorem framesOps_cons (id : String) (frame : LiveFrame) (frames : List LiveFrame) :
    framesOps R id (frame :: frames) = if frame.progress.runId = R then
      opsOf id frame.progress.items ++ framesOps R id frames else framesOps R id frames := by
  unfold framesOps
  by_cases h : frame.progress.runId = R
  · rw [List.filter_cons_of_pos (by simpa using h), if_pos h, List.flatMap_cons, opsOf_append]
  · rw [List.filter_cons_of_neg (by simpa using h), if_neg h]

/-- Nothing of a text is missing where it is stated whole. -/
theorem noGaps_of_replaces {items : List LiveItem}
    (h : ∀ item ∈ items, ∃ key length text, item = .replace key length text)
    (v : Option (Feed.View Text)) (id : String) : Feed.NoGaps tails v (opsOf id items) := by
  induction items generalizing v with
  | nil => trivial
  | cons item items ih =>
    obtain ⟨⟨key, length, text, rfl⟩, hrest⟩ := List.forall_mem_cons.mp h
    rw [opsOf_cons]
    split
    · exact ⟨rfl, ih hrest _⟩
    · exact ih hrest v

theorem Stated.draw (h : Stated home opened W r l) (hr : RegistryOk home closed reach r)
    (hreach : ∀ n, reach n → opened n) {frame : LiveFrame} (hframe : States r W frame) :
    Stated home opened W r (l.apply frame).1 ∧ (l.apply frame).2.2 = false ∧
    ∀ R id, (l.apply frame).1.view R id = if frame.progress.runId = R then
      (opsOf id frame.progress.items).foldl (Feed.readOn tails) (l.view R id) else l.view R id := by
  obtain ⟨R₀, state, items, hs, hW, rfl, hreplaces⟩ := hframe
  obtain rfl : state.runId = R₀ := hr.runId R₀ state hs
  obtain ⟨hended, hgap, run, hdrawn, hhome, hget, hviews⟩ :=
    draw_spec hr (by simp [h.ended]) h.home (replacementFrame state items) hs rfl rfl
      (fun run hrun id tombstone ht => by
        rw [h.tombs _ run hrun] at ht
        cases ht)
      fun id => noGaps_of_replaces hreplaces _ id
  have hcases : ∀ R run', (l.apply (replacementFrame state items)).1.runs.get R = some run' →
      (state.runId = R ∧ run' = run) ∨ l.runs.get R = some run' := by
    intro R run' hrun
    rw [hget] at hrun
    split at hrun
    · exact .inl ⟨‹_›, (Option.some.inj hrun).symm⟩
    · exact .inr hrun
  refine ⟨⟨hended.trans h.ended, fun R run' hrun => ?_, fun R run' hrun => ?_,
    fun R run' hrun => ?_, fun R run' hrun => ?_⟩, hgap, fun R id => ?_⟩
  · rcases hcases R run' hrun with ⟨rfl, -⟩ | hrun
    · exact ⟨state, hs, hW⟩
    · exact h.known R run' hrun
  · rcases hcases R run' hrun with ⟨rfl, rfl⟩ | hrun
    · exact hhome
    · exact h.home R run' hrun
  · rcases hcases R run' hrun with ⟨rfl, rfl⟩ | hrun
    · exact hdrawn.openedAfter (hreach _ (hr.reached _ state hs)) fun run hrun => h.opened _ run hrun
    · exact h.opened R run' hrun
  · rcases hcases R run' hrun with ⟨rfl, rfl⟩ | hrun
    · obtain ⟨⟨_, rfl⟩, -⟩ := hdrawn
      unfold openRun
      cases hrun : l.runs.get (replacementFrame state items).progress.runId with
      | none => rfl
      | some run => exact h.tombs _ run hrun
    · exact h.tombs R run' hrun
  · rw [LiveStreamLedger.view, hget]
    split
    · rename_i hR
      rw [Option.bind_some, hviews id, hR]
    · rfl

theorem Stated.drawAll {s : Mirror} {frames : List LiveFrame} (h : Stated home opened W s.registry l)
    (hr : RegistryOk home closed reach s.registry) (hreach : ∀ n, reach n → opened n)
    (hl : s.ledger = some l) (hframes : ∀ frame ∈ frames, States s.registry W frame) :
    ∃ l', frames.foldl giveFrame s = { s with ledger := some l' } ∧
      Stated home opened W s.registry l' ∧
      ∀ R id, l'.view R id = (framesOps R id frames).foldl (Feed.readOn tails) (l.view R id) := by
  induction frames generalizing s l with
  | nil =>
    refine ⟨l, ?_, h, fun R id => rfl⟩
    rw [← hl]
    rfl
  | cons frame frames ih =>
    obtain ⟨hframe, hrest⟩ := List.forall_mem_cons.mp hframes
    obtain ⟨h', hgap, hview⟩ := h.draw hr hreach hframe
    have hgive : giveFrame s frame = { s with ledger := some (l.apply frame).1 } := by
      unfold giveFrame
      rw [hl]
      simp only [hgap, Bool.or_false]
    rw [List.foldl_cons, hgive]
    obtain ⟨l', hfold, hstated, hviews⟩ := @ih (l.apply frame).1
      { s with ledger := some (l.apply frame).1 } h' hr rfl hrest
    refine ⟨l', hfold, hstated, fun R id => ?_⟩
    rw [hviews, hview, framesOps_cons]
    split
    · rw [List.foldl_append]
    · rfl

theorem mem_replacementFrames {frame : LiveFrame} (h : frame ∈ replacementFrames ro state) :
    ∃ items, frame = replacementFrame state items ∧
      ∀ item ∈ items, ∃ key length text, item = .replace key length text := by
  obtain ⟨hitems, hframes⟩ := replacementLoop_items ro state [] 0 state.streams.values
  obtain ⟨items, rfl⟩ := hframes frame h
  refine ⟨items, rfl, fun item hitem => ?_⟩
  have hmem : item ∈ state.streams.values.map replacementItem := by
    rw [List.nil_append] at hitems
    rw [← hitems]
    exact List.mem_flatMap.mpr ⟨_, h, hitem⟩
  obtain ⟨s, -, rfl⟩ := List.mem_map.mp hmem
  exact ⟨s.key, s.length, s.tail, rfl⟩

theorem workspaceFrames_states (ro : RegistryOptions) (r : LiveRunRegistry) (W : WorkspaceId) :
    ∀ frame ∈ workspaceFrames ro r W, States r W frame := by
  intro frame hframe
  obtain ⟨state, hstate, hframe⟩ := List.mem_flatMap.mp hframe
  obtain ⟨hvalue, hW⟩ := List.mem_filter.mp hstate
  obtain ⟨R, hs⟩ := OrderedMap.mem_values.mp hvalue
  obtain ⟨items, hitems, hreplaces⟩ := mem_replacementFrames hframe
  exact ⟨R, state, items, hs, of_decide_eq_true hW, hitems, hreplaces⟩

/-- The frames of the Workspace state each stream of a Run once. -/
theorem framesOps_workspaceFrames (hr : RegistryOk home closed reach r)
    (hs : r.runs.get R = some state) (hW : state.workspaceId = W) (id : String) :
    framesOps R id (workspaceFrames ro r W) =
      (state.streams.get id).elim [] fun s => [.replace s.length s.tail] := by
  have hflat : ∀ states : List LiveRunState,
      (states.filter fun state => state.workspaceId = W).flatMap (replacementFrames ro) =
        states.flatMap fun state => if state.workspaceId = W then replacementFrames ro state else [] := by
    intro states
    induction states with
    | nil => rfl
    | cons state states ih =>
      rw [List.flatMap_cons, ← ih]
      split
      · rename_i h
        rw [List.filter_cons_of_pos (by simpa using h), List.flatMap_cons]
      · rename_i h
        rw [List.filter_cons_of_neg (by simpa using h), List.nil_append]
  have hrun : (workspaceFrames ro r W).filter (fun frame => frame.progress.runId = R) =
      replacementFrames ro state := by
    rw [workspaceFrames, hflat, OrderedMap.filter_flatMap (k := R), hs, Option.elim_some, if_pos hW]
    intro R' state' hs' frame hframe
    split at hframe
    · obtain ⟨items, rfl, -⟩ := mem_replacementFrames hframe
      rw [decide_eq_true_iff]
      exact Eq.congr_left (hr.runId R' state' hs')
    · cases hframe
  have hitems : (replacementFrames ro state).flatMap (fun frame => frame.progress.items) =
      state.streams.values.flatMap fun s => [replacementItem s] := by
    rw [← List.map_eq_flatMap]
    exact (replacementLoop_items ro state [] 0 state.streams.values).1
  rw [framesOps, hrun, hitems, opsOf, OrderedMap.filter_flatMap (k := id)]
  · cases state.streams.get id <;> rfl
  · intro id' s hstream item hitem
    obtain rfl := List.mem_singleton.mp hitem
    rw [decide_eq_true_iff]
    exact Eq.congr_left (hr.keys R state id' s hs hstream)

/-- A client that starts from the registry's frames follows it. -/
theorem Stated.followed (h : Stated home opened W r l) (hr : RegistryOk home closed reach r)
    (hviews : ∀ R id, l.view R id =
      (framesOps R id (workspaceFrames ro r W)).foldl (Feed.readOn tails) none) :
    Followed home closed opened W r l := by
  refine ⟨by simp [h.ended], fun R => ⟨fun run hrun => h.known R run hrun, ?_,
    fun run hrun => h.home R run hrun, fun run hrun => h.opened R run hrun, ?_⟩⟩
  · intro state hs hW id
    change l.view R id = _
    rw [hviews, framesOps_workspaceFrames hr hs hW, LiveRunState.view]
    cases state.streams.get id <;> rfl
  · intro run hrun state hs id tombstone ht
    rw [h.tombs R run hrun] at ht
    cases ht

/-! ## Runs of the mirror -/

/-- What the registry's callers keep to: sequences ascend, no Run or stream is
forgotten for want of room, and items are as their schema has them and never take a
text back. -/
def WithinBounds (o : MirrorOptions) (s : Mirror) : MirrorAction → Prop
  | .commits events now =>
    Ascending AgentEvent.sequence (s.committed ++ events) ∧
    WithinRuns o.registry now ((events.map AgentEvent.sequence).foldl max 0) s.registry events
  | .applies progress now =>
    ∀ state ∈ s.registry.runs.get progress.runId, Admits o.registry { state with touchedAt := now }
      progress.items
  | .starts => True

/-- No Run goes on after its end. -/
def EndsOnce (s : Mirror) : MirrorAction → Prop
  | .commits events _ => (s.committed ++ events).Pairwise LetsFollow
  | _ => True

/-- Every event names the Thread and Workspace its Run is in. -/
def StaysHome (home : RunId → ThreadId × WorkspaceId) : MirrorAction → Prop
  | .commits events _ => ∀ event ∈ events, NamesHome home event
  | _ => True

/-- The ledger has the streams of the Workspace's known Runs, and no gap was seen. -/
def Mirrors (o : MirrorOptions) (s : Mirror) : Prop :=
  s.gap = false ∧ ∀ l ∈ s.ledger, ∀ R state, s.registry.runs.get R = some state →
    state.workspaceId = o.workspaceId → ∀ id, l.view R id = state.view id

structure MirrorOk (o : MirrorOptions) (home : RunId → ThreadId × WorkspaceId) (s : Mirror) :
    Prop where
  registry : RegistryOk home (Ended s.committed) (Reach s.committed) s.registry
  ledger : ∀ l ∈ s.ledger,
    Followed home (Ended s.committed) (Reach s.committed) o.workspaceId s.registry l
  gap : s.gap = false

theorem MirrorOk.initial : MirrorOk o home .initial where
  registry := by refine ⟨?_, ?_, ?_, ?_, ?_⟩ <;> simp [Mirror.initial, LiveRunRegistry.empty]
  ledger := by simp [Mirror.initial]
  gap := rfl

theorem Followed.mono {opened' : Nat → Prop} (h : Followed home closed opened W r l)
    (ho : ∀ n, opened n → opened' n) : Followed home closed opened' W r l where
  ended := h.ended
  runs R := { h.runs R with opened := fun run hrun id stream hs => ho _ ((h.runs R).opened run hrun id stream hs) }

theorem RegistryOk.mono {reach' : Nat → Prop} (h : RegistryOk home closed reach r)
    (hreach : ∀ n, reach n → reach' n) : RegistryOk home closed reach' r :=
  { h with reached := fun R state hs => hreach _ (h.reached R state hs) }

theorem MirrorOk.commits {s : Mirror} (h : MirrorOk o home s) {events : List AgentEvent}
    (hbounds : WithinBounds o s (.commits events now)) (hends : EndsOnce s (.commits events now))
    (hhome : StaysHome home (.commits events now)) {t : Mirror}
    (hstep : (Mirror.machine o).step s (.commits events now) = some t) : MirrorOk o home t := by
  obtain ⟨hascending, hroom⟩ := hbounds
  obtain rfl := Option.some.inj hstep
  by_cases hempty : events = []
  · subst hempty
    refine ⟨?_, ?_, h.gap⟩
    · simpa [observeCommitted] using h.registry
    · simpa [observeCommitted] using h.ledger
  obtain ⟨hsequence, hreach⟩ := transactionSequence_spec events
  have hmono : ∀ n, Reach s.committed n → Reach (s.committed ++ events) n := fun n =>
    Reach.mono (List.subset_append_left _ _)
  have hopened : ∀ event ∈ events, ∀ n, Reach s.committed n → n < event.sequence := by
    rintro event he n ⟨before, hb, hle⟩
    exact Nat.lt_of_le_of_lt hle ((List.pairwise_append.mp hascending).2.2 before hb event he)
  obtain ⟨hregistry, hledger⟩ :=
    Followed.observeEvents (W := o.workspaceId) now
      (h.registry.mono hmono) hhome hends hroom
      ((hreach hempty).mono (List.subset_append_right _ _)) hopened hsequence
  refine ⟨hregistry, fun l hl => ?_, h.gap⟩
  obtain ⟨l₀, hl₀, rfl⟩ := Option.map_eq_some_iff.mp hl
  exact (hledger l₀ (h.ledger l₀ hl₀)).mono hmono

theorem MirrorOk.applies {s : Mirror} (h : MirrorOk o home s)
    (hbounds : WithinBounds o s (.applies progress now)) {t : Mirror}
    (hstep : (Mirror.machine o).step s (.applies progress now) = some t) : MirrorOk o home t := by
  simp only [Mirror.machine, Mirror.step, LiveProgress.apply] at hstep
  cases hs : s.registry.runs.get progress.runId with
  | none =>
    simp only [hs, Option.some.injEq] at hstep
    exact hstep ▸ h
  | some state =>
    have hadmits := hbounds state hs
    simp only [hs] at hstep
    by_cases hmatch : state.threadId ≠ progress.threadId ∨ state.workspaceId ≠ progress.workspaceId
    · simp only [if_pos hmatch, Option.some.injEq] at hstep
      exact hstep ▸ h
    · simp only [if_neg hmatch] at hstep
      obtain ⟨hthread, hworkspace⟩ : state.threadId = progress.threadId ∧
          state.workspaceId = progress.workspaceId := by
        simpa only [not_or, not_not] using hmatch
      have hok := RegistryOk.apply o.registry now h.registry hs
      have hafter : (applyItems o.registry { state with touchedAt := now }
          progress.items).1.afterSequence = state.afterSequence := by
        obtain ⟨streams, hstreams⟩ :=
          applyItems_streams o.registry { state with touchedAt := now } progress.items
        rw [hstreams]
      by_cases hitems : (applyItems o.registry { state with touchedAt := now } progress.items).2 = []
      · simp only [hitems, if_true, Option.some.injEq] at hstep
        subst hstep
        exact ⟨hok, fun l hl => (h.ledger l hl).applyUnseen hs hadmits (.inr hitems), h.gap⟩
      · simp only [if_neg hitems] at hstep
        by_cases hW : progress.workspaceId = o.workspaceId
        · simp only [if_pos hW, Option.some.injEq, giveFrame, hafter] at hstep
          cases hl : s.ledger with
          | none =>
            simp only [hl] at hstep
            subst hstep
            exact ⟨hok, by simp, h.gap⟩
          | some l =>
            simp only [hl] at hstep
            subst hstep
            obtain ⟨hfollowed, hgap⟩ := (h.ledger l hl).apply
              h.registry hs hthread hworkspace hW hadmits (h.registry.reached _ state hs) rfl
            refine ⟨hok, ?_, ?_⟩
            · rintro _ ⟨⟩
              exact hfollowed
            · simp only [h.gap, Bool.false_or]
              exact hgap
        · simp only [if_neg hW, Option.some.injEq] at hstep
          subst hstep
          refine ⟨hok, fun l hl => (h.ledger l hl).applyUnseen hs hadmits (.inl ?_), h.gap⟩
          rw [hworkspace]
          exact hW

theorem MirrorOk.starts {s : Mirror} (h : MirrorOk o home s) {t : Mirror}
    (hstep : (Mirror.machine o).step s .starts = some t) : MirrorOk o home t := by
  obtain rfl := Option.some.inj hstep
  have hnew : Stated home (Reach s.committed) o.workspaceId s.registry .empty := by
    refine ⟨rfl, ?_, ?_, ?_, ?_⟩ <;> simp [LiveStreamLedger.empty]
  obtain ⟨l, hfold, hstated, hviews⟩ :=
    Stated.drawAll (s := { s with ledger := some .empty }) hnew h.registry (fun _ h => h) rfl
      (workspaceFrames_states o.registry s.registry o.workspaceId)
  rw [hfold]
  refine ⟨h.registry, ?_, h.gap⟩
  rintro _ ⟨⟩
  exact hstated.followed h.registry hviews

instance (r : LiveRunRegistry) (event : AgentEvent) : Decidable (HasRoom ro r event) := by
  unfold HasRoom; infer_instance

instance decidableWithinRuns (ro : RegistryOptions) (now sequence : Nat) :
    ∀ (r : LiveRunRegistry) (events : List AgentEvent),
      Decidable (WithinRuns ro now sequence r events)
  | _, [] => isTrue trivial
  | r, event :: events =>
    have := decidableWithinRuns ro now sequence (observeEvent ro now sequence r event) events
    inferInstanceAs (Decidable (HasRoom ro r event ∧ WithinRuns ro now sequence _ events))

instance (v : Option (Feed.View Text)) (op : Feed.Op UInt16 Text) :
    Decidable (Feed.Admissible v op) := by
  unfold Feed.Admissible; cases op <;> dsimp only <;> infer_instance

instance decidableAdmits (ro : RegistryOptions) :
    ∀ (state : LiveRunState) (items : List LiveItem), Decidable (Admits ro state items)
  | _, [] => isTrue trivial
  | state, item :: items =>
    have := decidableAdmits ro (applyItem ro state item).1 items
    inferInstanceAs (Decidable (Fits ro state item ∧
      Feed.Admissible (state.view (liveStreamKeyId item.key)) (toOp item) ∧ Admits ro _ items))

instance (s : Mirror) (action : MirrorAction) : Decidable (WithinBounds o s action) := by
  unfold WithinBounds Ascending; cases action <;> dsimp only <;> infer_instance

instance (s : Mirror) (action : MirrorAction) : Decidable (EndsOnce s action) := by
  unfold EndsOnce LetsFollow; cases action <;> dsimp only <;> infer_instance

instance (action : MirrorAction) : Decidable (StaysHome home action) := by
  unfold StaysHome NamesHome; cases action <;> dsimp only <;> infer_instance

def exampleMirror : MirrorOptions := ⟨⟨4, 4, fun _ => 0⟩, ⟨"workspace"⟩⟩

/-- The only Run's progress, and an event of it. -/
def exampleProgress (at_ : Nat) (text : Text) : LiveRunProgress :=
  ⟨⟨"run"⟩, ⟨"thread"⟩, ⟨"workspace"⟩, [.append .assistant at_ text]⟩

def exampleEvent (sequence : Nat) (threadId : String) (data : EventData) : AgentEvent :=
  ⟨sequence, ⟨"workspace"⟩, ⟨threadId⟩, some ⟨"run"⟩, data⟩

end Opensteer.LiveProgress
