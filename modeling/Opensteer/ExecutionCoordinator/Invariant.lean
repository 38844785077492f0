import Opensteer.ExecutionCoordinator.Model

/-!
# The coordinator's books

The queue, the sets and the counts of the coordinator tell the same story: each
is what the queued entries or the dispatches in progress make it
(`Balanced`), and no count is over its bound. `coordinator_invariants` says so
of every run.
-/

namespace Opensteer.ExecutionCoordinator

variable {threadOf : RunId → ThreadId} {o : Options} {c : Coordinator threadOf}

/-- The commands whose dispatch is in progress. -/
def inProgress (c : Coordinator threadOf) : List (PendingCommandRow threadOf) :=
  c.dispatches.map Dispatch.command

def isControl (command : PendingCommandRow threadOf) : Bool :=
  !isTriggerProgram command && !isRun command

/-- What the coordinator keeps of the commands it has queued and dispatches. -/
structure Books (threadOf : RunId → ThreadId) where
  queue : List (QueueEntry threadOf)
  queuedIds : Finset CommandId
  queuedBytes : Int
  dispatchingIds : Finset CommandId
  activeThreads : Finset ThreadId
  dispatchingRuns : EnvironmentId → Option Int
  dispatchingRunIds : Finset RunId
  activeRuns : Int
  activeControls : Int
  activeTriggerPrograms : Int
  inProgress : List (PendingCommandRow threadOf)

def books (c : Coordinator threadOf) : Books threadOf :=
  ⟨c.queue, c.queuedIds, c.queuedBytes, c.dispatchingIds, c.activeThreads, c.dispatchingRuns,
    c.dispatchingRunIds, c.activeRuns, c.activeControls, c.activeTriggerPrograms, inProgress c⟩

structure Balanced (o : Options) (b : Books threadOf) : Prop where
  queuedIds : IsKeySet b.queuedIds (b.queue.map fun entry => entry.command.id)
  queuedBytes : b.queuedBytes = (b.queue.map QueueEntry.bytes).sum
  dispatchingIds : IsKeySet b.dispatchingIds (b.inProgress.map PendingCommandRow.id)
  activeThreads : IsKeySet b.activeThreads (b.inProgress.filterMap lockedThreadId)
  dispatchingRuns : IsTally b.dispatchingRuns (b.inProgress.filterMap countedEnvironmentId)
  dispatchingRunIds : IsKeySet b.dispatchingRunIds (b.inProgress.filterMap dispatchingRunId)
  activeRuns : b.activeRuns = b.inProgress.countP isRun
  activeControls : b.activeControls = b.inProgress.countP isControl
  activeTriggerPrograms : b.activeTriggerPrograms = b.inProgress.countP isTriggerProgram
  activeRuns_le : b.activeRuns ≤ o.maxConcurrentRuns
  activeControls_le : b.activeControls ≤ o.maxConcurrentControls
  activeTriggerPrograms_le : b.activeTriggerPrograms ≤ o.maxConcurrentTriggerPrograms

theorem Balanced.initial (o : Options) :
    Balanced o (books (Coordinator.initial : Coordinator threadOf)) where
  queuedIds := .nil
  queuedBytes := rfl
  dispatchingIds := .nil
  activeThreads := .nil
  dispatchingRuns := .nil
  dispatchingRunIds := .nil
  activeRuns := rfl
  activeControls := rfl
  activeTriggerPrograms := rfl
  activeRuns_le := Int.natCast_nonneg _
  activeControls_le := Int.natCast_nonneg _
  activeTriggerPrograms_le := Int.natCast_nonneg _

/-! ## What leaves the books as they are -/

@[simp] theorem books_wakeReads (c : Coordinator threadOf) : books (wakeReads c) = books c := by
  unfold wakeReads; split <;> rfl

@[simp] theorem books_wake (c : Coordinator threadOf) : books (wake c) = books c := by
  unfold wake; split <;> simp

@[simp] theorem books_schedulePoll (c : Coordinator threadOf) :
    books (schedulePoll c) = books c := by
  unfold schedulePoll; split <;> rfl

@[simp] theorem books_passEnds (c : Coordinator threadOf) : books (passEnds c) = books c := by
  unfold passEnds
  split
  · rw [books_wakeReads]; rfl
  · rw [books_schedulePoll]; rfl

@[simp] theorem books_start (c : Coordinator threadOf) : books (start c) = books c := by
  unfold start
  split
  · rw [books_wake]; rfl
  · rfl

@[simp] theorem books_stop (c : Coordinator threadOf) : books (stop c) = books c := by
  unfold stop; split <;> rfl

@[simp] theorem inProgress_setPhase (c : Coordinator threadOf) (i : Nat) (phase : Phase) :
    inProgress (setPhase c i phase) = inProgress c := by
  simp only [inProgress, setPhase, List.ext_getElem?_iff, List.getElem?_map,
    List.getElem?_modify]
  intro j
  split <;> cases c.dispatches[j]? <;> rfl

@[simp] theorem books_setPhase (c : Coordinator threadOf) (i : Nat) (phase : Phase) :
    books (setPhase c i phase) = books c := by
  simp only [books, inProgress_setPhase]
  rfl

/-! ## The queue -/

theorem Balanced.enqueue (h : Balanced o (books c)) {command : PendingCommandRow threadOf}
    (hnew : command.id ∉ c.queuedIds) : Balanced o (books (enqueue c command)) :=
  { h with
    queuedIds := by
      simp only [books, ExecutionCoordinator.enqueue, List.map_append, List.map_cons, List.map_nil]
      exact (h.queuedIds.insert hnew).perm (List.perm_append_singleton _ _).symm
    queuedBytes := by
      have := h.queuedBytes
      simp only [books, ExecutionCoordinator.enqueue, List.map_append, List.map_cons, List.map_nil,
        List.sum_append, List.sum_cons, List.sum_nil] at this ⊢
      omega }

theorem Balanced.enqueueListed {commands : List (PendingCommandRow threadOf)}
    (h : Balanced o (books c)) : Balanced o (books (enqueueListed o c commands)) := by
  induction commands generalizing c with
  | nil => exact h
  | cons command rest ih =>
    unfold ExecutionCoordinator.enqueueListed
    split
    · exact ih h
    · rename_i hnew
      split
      · exact h
      · exact ih (h.enqueue hnew)

/-! ## Dispatches that begin -/

/-- Of the three counts, `countActive` moves the one the command belongs to. -/
theorem countActive_counts (c : Coordinator threadOf) (command : PendingCommandRow threadOf)
    (n : Int) :
    (countActive c command n).activeRuns = c.activeRuns + (if isRun command then n else 0) ∧
    (countActive c command n).activeControls =
      c.activeControls + (if isControl command then n else 0) ∧
    (countActive c command n).activeTriggerPrograms =
      c.activeTriggerPrograms + (if isTriggerProgram command then n else 0) := by
  have hexcl : isTriggerProgram command = true → isRun command = false := by
    simp only [isTriggerProgram, isRun, decide_eq_true_eq, decide_eq_false_iff_not]
    intro h
    rw [h]
    decide
  unfold countActive isControl
  by_cases ht : isTriggerProgram command = true
  · simp [ht, hexcl ht]
  · by_cases hr : isRun command = true <;> simp [ht, hr]

@[simp] theorem endDispatch_queue (c : Coordinator threadOf) (i : Nat)
    (command : PendingCommandRow threadOf) :
    (endDispatch c i command).queue = c.queue ∧
    (endDispatch c i command).queuedIds = c.queuedIds ∧
    (endDispatch c i command).queuedBytes = c.queuedBytes := by
  simp only [endDispatch, countActive]
  split
  · exact ⟨rfl, rfl, rfl⟩
  · split <;> exact ⟨rfl, rfl, rfl⟩

/-- A Run's command locks the Thread of the Run. -/
theorem lockedThreadId_of_run {command : PendingCommandRow threadOf} {r : RunId}
    (h : dispatchingRunId command = some r) : lockedThreadId command = some (threadOf r) := by
  unfold dispatchingRunId at h
  unfold lockedThreadId
  split at h
  · rename_i hrun
    rw [if_pos hrun]
    exact command.run_thread (of_decide_eq_true hrun) r h
  · cases h

theorem Balanced.thread_active (h : Balanced o (books c)) {r : RunId}
    (hr : r ∈ c.dispatchingRunIds) : threadOf r ∈ c.activeThreads := by
  obtain ⟨command, hc, hrun⟩ := List.mem_filterMap.mp (h.dispatchingRunIds.mem_iff.mp hr)
  exact h.activeThreads.mem_iff.mpr
    (List.mem_filterMap.mpr ⟨command, hc, lockedThreadId_of_run hrun⟩)

/-- What the search of `#pump` has checked of the entry it finds. -/
theorem of_isEligible {out : Outside threadOf} {entry : QueueEntry threadOf}
    (h : isEligible o out c entry = true) :
    poolHasRoom o c entry.command = true ∧ entry.command.id ∉ c.dispatchingIds ∧
      ∀ t ∈ lockedThreadId entry.command, t ∉ c.activeThreads := by
  simp only [isEligible, Bool.and_eq_true, Bool.not_eq_true', decide_eq_false_iff_not] at h
  obtain ⟨⟨⟨⟨⟨-, hroom⟩, hid⟩, hthread⟩, -⟩, -⟩ := h
  refine ⟨hroom, hid, fun t ht => ?_⟩
  unfold lockedThreadId at ht
  split at ht
  · rename_i hrun
    simpa [hrun, Option.mem_def.mp ht] using hthread
  · cases ht

theorem poolHasRoom_counts {command : PendingCommandRow threadOf}
    (h : poolHasRoom o c command = true) :
    (isRun command = true → c.activeRuns < o.maxConcurrentRuns) ∧
    (isControl command = true → c.activeControls < o.maxConcurrentControls) ∧
    (isTriggerProgram command = true →
      c.activeTriggerPrograms < o.maxConcurrentTriggerPrograms) := by
  unfold poolHasRoom at h
  unfold isControl
  by_cases ht : isTriggerProgram command = true
  · have hr : isRun command = false := by
      simp only [isTriggerProgram, decide_eq_true_eq] at ht
      simp only [isRun, ht]
      decide
    simpa [ht, hr] using h
  · by_cases hr : isRun command = true <;> simpa [ht, hr] using h

theorem countP_concat (p : PendingCommandRow threadOf → Bool)
    (commands : List (PendingCommandRow threadOf)) (command : PendingCommandRow threadOf) :
    ((commands ++ [command]).countP p : Int) =
      commands.countP p + if p command then 1 else 0 := by
  rw [List.countP_append, List.countP_singleton]
  split <;> simp

theorem Balanced.startDispatch (h : Balanced o (books c)) {out : Outside threadOf}
    {entry : QueueEntry threadOf} {pre post : List (QueueEntry threadOf)}
    (hqueue : c.queue = pre ++ entry :: post) (helig : isEligible o out c entry = true) :
    Balanced o (books (startDispatch c entry (pre ++ post))) := by
  obtain ⟨hroom, hid, hthread⟩ := of_isEligible helig
  obtain ⟨hruns, hcontrols, hprograms⟩ := poolHasRoom_counts hroom
  obtain ⟨hr, hc, hp⟩ := countActive_counts c entry.command 1
  have hq : c.queue.Perm (entry :: (pre ++ post)) := hqueue ▸ List.perm_middle
  have hin : inProgress (ExecutionCoordinator.startDispatch c entry (pre ++ post)) =
      inProgress c ++ [entry.command] := by
    simp [inProgress, ExecutionCoordinator.startDispatch]
  have hrun : ∀ r ∈ dispatchingRunId entry.command, r ∉ c.dispatchingRunIds := fun r hr hin =>
    hthread _ (lockedThreadId_of_run hr) (h.thread_active hin)
  have hactiveRuns := h.activeRuns
  have hactiveControls := h.activeControls
  have hactivePrograms := h.activeTriggerPrograms
  have hbytes := h.queuedBytes
  simp only [books] at hactiveRuns hactiveControls hactivePrograms hbytes
  rw [(hq.map QueueEntry.bytes).sum_nat, List.map_cons, List.sum_cons] at hbytes
  simp only [books, hin]
  exact {
    queuedIds := (h.queuedIds.perm (hq.map _)).erase
    queuedBytes := by simp only [ExecutionCoordinator.startDispatch]; omega
    dispatchingIds := by
      rw [List.map_append]
      exact (h.dispatchingIds.insert hid).perm (List.perm_append_singleton _ _).symm
    activeThreads :=
      (h.activeThreads.insertOption hthread).perm (filterMap_concat_perm _ _ _).symm
    dispatchingRuns :=
      (h.dispatchingRuns.upOption _).perm (filterMap_concat_perm _ _ _).symm
    dispatchingRunIds :=
      (h.dispatchingRunIds.insertOption hrun).perm (filterMap_concat_perm _ _ _).symm
    activeRuns := by rw [countP_concat, ← hactiveRuns]; exact hr
    activeControls := by rw [countP_concat, ← hactiveControls]; exact hc
    activeTriggerPrograms := by rw [countP_concat, ← hactivePrograms]; exact hp
    activeRuns_le := by
      refine le_of_eq_of_le hr ?_
      split
      · exact hruns ‹_›
      · exact (Int.add_zero _).symm ▸ h.activeRuns_le
    activeControls_le := by
      refine le_of_eq_of_le hc ?_
      split
      · exact hcontrols ‹_›
      · exact (Int.add_zero _).symm ▸ h.activeControls_le
    activeTriggerPrograms_le := by
      refine le_of_eq_of_le hp ?_
      split
      · exact hprograms ‹_›
      · exact (Int.add_zero _).symm ▸ h.activeTriggerPrograms_le }

theorem Balanced.pumpLoop {out : Outside threadOf} (fuel : Nat) (h : Balanced o (books c)) :
    Balanced o (books (pumpLoop o out fuel c)) := by
  induction fuel generalizing c with
  | zero => exact h
  | succ fuel ih =>
    unfold ExecutionCoordinator.pumpLoop
    split
    · split
      · exact h
      · rename_i entry hfind
        obtain ⟨helig, pre, post, hqueue, hpre⟩ := List.find?_eq_some_iff_append.mp hfind
        have herase : c.queue.eraseP (isEligible o out c) = pre ++ post := by
          rw [hqueue, List.eraseP_append_right _ (fun b hb => by simpa using hpre b hb),
            List.eraseP_cons_of_pos helig]
        rw [herase]
        exact ih (h.startDispatch hqueue helig)
    · exact h

theorem Balanced.pump (h : Balanced o (books c)) (out : Outside threadOf) :
    Balanced o (books (pump o out c)) := by
  unfold ExecutionCoordinator.pump
  split
  · exact h.pumpLoop _
  · exact h

/-! ## Dispatches that end -/

theorem Balanced.endDispatch (h : Balanced o (books c)) {i : Nat} {d : Dispatch threadOf}
    (hi : c.dispatches[i]? = some d) : Balanced o (books (endDispatch c i d.command)) := by
  obtain ⟨hr, hc, hp⟩ := countActive_counts c d.command (-1)
  obtain ⟨hqueue, hids, hbytes⟩ := endDispatch_queue c i d.command
  have hget : (inProgress c)[i]? = some d.command := by simp [inProgress, hi]
  have hin : inProgress (ExecutionCoordinator.endDispatch c i d.command) =
      (inProgress c).eraseIdx i := by
    simp [inProgress, ExecutionCoordinator.endDispatch, List.eraseIdx_map]
  have hperm : (inProgress c).Perm (d.command :: (inProgress c).eraseIdx i) := by
    obtain ⟨hlt, he⟩ := List.getElem?_eq_some_iff.mp hget
    exact he ▸ (List.getElem_cons_eraseIdx_perm hlt).symm
  have hcount : ∀ p : PendingCommandRow threadOf → Bool, ((inProgress c).countP p : Int) =
      ((inProgress c).eraseIdx i).countP p + if p d.command then 1 else 0 := by
    intro p
    rw [hperm.countP_eq, List.countP_cons]
    split <;> simp
  have hactiveRuns := h.activeRuns
  have hactiveControls := h.activeControls
  have hactivePrograms := h.activeTriggerPrograms
  simp only [books, hcount] at hactiveRuns hactiveControls hactivePrograms
  have hruns_le := h.activeRuns_le
  have hcontrols_le := h.activeControls_le
  have hprograms_le := h.activeTriggerPrograms_le
  simp only [books] at hruns_le hcontrols_le hprograms_le
  simp only [books, hin]
  exact {
    queuedIds := by rw [hids, hqueue]; exact h.queuedIds
    queuedBytes := by rw [hbytes, hqueue]; exact h.queuedBytes
    dispatchingIds := (h.dispatchingIds.perm (hperm.map _)).erase
    activeThreads := (h.activeThreads.perm (filterMap_perm_of_getElem? _ hget)).eraseOption
    dispatchingRuns := (h.dispatchingRuns.perm (filterMap_perm_of_getElem? _ hget)).downOption
    dispatchingRunIds :=
      (h.dispatchingRunIds.perm (filterMap_perm_of_getElem? _ hget)).eraseOption
    activeRuns := by refine hr.trans ?_; rw [hactiveRuns]; split <;> simp
    activeControls := by refine hc.trans ?_; rw [hactiveControls]; split <;> simp
    activeTriggerPrograms := by refine hp.trans ?_; rw [hactivePrograms]; split <;> simp
    activeRuns_le := by refine le_of_eq_of_le hr ?_; split <;> omega
    activeControls_le := by refine le_of_eq_of_le hc ?_; split <;> omega
    activeTriggerPrograms_le := by refine le_of_eq_of_le hp ?_; split <;> omega }

/-! ## Every run -/

theorem Balanced.step {a : Action threadOf} {c' : Coordinator threadOf} (h : Balanced o (books c))
    (hs : step o c a = some c') : Balanced o (books c') := by
  cases a with
  | start => cases hs; rwa [books_start]
  | wake => cases hs; rwa [books_wake]
  | timerFires =>
    simp only [ExecutionCoordinator.step] at hs
    split at hs <;> cases hs
    rw [books_wake]
    exact h
  | pollListed out commands =>
    simp only [ExecutionCoordinator.step] at hs
    split at hs <;> cases hs
    exact (Balanced.enqueueListed (c := pruneBackoff c _ commands) h).pump out
  | pollFails =>
    simp only [ExecutionCoordinator.step] at hs
    split at hs <;> cases hs
    exact h
  | passEnds =>
    simp only [ExecutionCoordinator.step] at hs
    split at hs <;> cases hs
    rwa [books_passEnds]
  | claimSettles i claim =>
    simp only [ExecutionCoordinator.step] at hs
    split at hs <;> cases hs
    rwa [books_setPhase]
  | dispatchResolves i =>
    simp only [ExecutionCoordinator.step] at hs
    split at hs <;> cases hs
    exact (books_setPhase c i (.settled true)).symm ▸ h
  | dispatchRejects i error =>
    simp only [ExecutionCoordinator.step] at hs
    split at hs <;> cases hs
    rwa [books_setPhase]
  | retryResolves i now =>
    simp only [ExecutionCoordinator.step] at hs
    split at hs <;> cases hs
    rw [books_setPhase]
    exact h
  | recordResolves i =>
    simp only [ExecutionCoordinator.step] at hs
    split at hs <;> cases hs <;> rwa [books_setPhase]
  | executeRejects i =>
    simp only [ExecutionCoordinator.step] at hs
    split at hs <;> cases hs
    rwa [books_setPhase]
  | finallyRuns i out =>
    simp only [ExecutionCoordinator.step] at hs
    split at hs <;> cases hs
    rename_i command wakeImmediately hi
    have hp := (h.endDispatch hi).pump out
    simp only [finallyRuns]
    split
    · rwa [books_wake]
    · rwa [books_schedulePoll]
  | stop => cases hs; rwa [books_stop]
  | stopEnds =>
    simp only [ExecutionCoordinator.step] at hs
    split at hs <;> cases hs
    exact { h with queuedIds := .nil, queuedBytes := rfl }

/-- The coordinator, after any run: no command is dispatched twice at once, and
at most one `run.execute` of a Thread is; the three active counts are the
numbers of dispatches of their kind in progress, and within their bounds;
`#dispatchingRuns` and `#dispatchingRunIds` are those of the `run.execute`
dispatches in progress; and `#queuedIds` and `#queuedBytes` are those of the
queue, where each command is at most once. -/
theorem coordinator_invariants (o : Options) {as : List (Action threadOf)}
    {c : Coordinator threadOf} (hrun : (machine o).run .initial as = some c) :
    ((inProgress c).map PendingCommandRow.id).Nodup ∧
    (∀ t, (inProgress c).countP (fun command => isRun command && command.threadId = some t) ≤ 1) ∧
    (c.activeRuns = (inProgress c).countP isRun ∧
      c.activeControls = (inProgress c).countP isControl ∧
      c.activeTriggerPrograms = (inProgress c).countP isTriggerProgram) ∧
    (c.activeRuns ≤ o.maxConcurrentRuns ∧ c.activeControls ≤ o.maxConcurrentControls ∧
      c.activeTriggerPrograms ≤ o.maxConcurrentTriggerPrograms) ∧
    (∀ e, (c.dispatchingRuns e).getD 0 = (inProgress c).countP fun command =>
      isRun command && command.environmentId = some e) ∧
    (∀ r, r ∈ c.dispatchingRunIds ↔
      ∃ command ∈ inProgress c, isRun command = true ∧ command.runId = some r) ∧
    (∀ id, id ∈ c.queuedIds ↔ ∃ entry ∈ c.queue, entry.command.id = id) ∧
    (c.queue.map fun entry => entry.command.id).Nodup ∧
    c.queuedBytes = (c.queue.map QueueEntry.bytes).sum := by
  have h : Balanced o (books c) := (machine o).invariant (P := fun c => Balanced o (books c))
    (.initial o) (fun _ _ _ h hs => h.step hs) hrun
  refine ⟨h.dispatchingIds.nodup, fun t => ?_,
    ⟨h.activeRuns, h.activeControls, h.activeTriggerPrograms⟩,
    ⟨h.activeRuns_le, h.activeControls_le, h.activeTriggerPrograms_le⟩, fun e => ?_, fun r => ?_,
    fun id => ?_, h.queuedIds.nodup, h.queuedBytes⟩
  · have := List.nodup_iff_count_le_one.mp h.activeThreads.nodup t
    rw [List.count_filterMap] at this
    refine le_of_eq_of_le (List.countP_congr fun command _ => ?_) this
    cases hrun : isRun command <;> simp [lockedThreadId, hrun]
  · rw [show (c.dispatchingRuns e).getD 0 = _ from h.dispatchingRuns.getD_zero e,
      List.count_filterMap]
    refine congrArg Nat.cast (List.countP_congr fun command _ => ?_)
    cases hrun : isRun command <;> simp [countedEnvironmentId, hrun]
  · refine h.dispatchingRunIds.mem_iff.trans (List.mem_filterMap.trans ?_)
    refine exists_congr fun command => and_congr_right fun _ => ?_
    cases hrun : isRun command <;> simp [dispatchingRunId, hrun]
  · exact h.queuedIds.mem_iff.trans List.mem_map

/-- A Run's command is dispatched, sent back and listed again before its own
dispatch has settled: it waits. -/
theorem coordinator_invariants_run :
    ∃ c : Coordinator fun _ => ⟨"t"⟩, (machine
      ⟨1, 1, 1, 10, 10, by decide, by decide, by decide, by decide, by decide⟩).run .initial
        [.start, .pollListed ⟨0, fun _ _ => true⟩ [⟨⟨"c"⟩, some ⟨"e"⟩, some ⟨"t"⟩, some ⟨"r"⟩,
            .runExecute, 4, by decide⟩],
          .claimSettles 0 .claimed, .dispatchRejects 0 (.command .retry), .retryResolves 0 5,
          .passEnds, .timerFires, .pollListed ⟨2000, fun _ _ => true⟩ [⟨⟨"c"⟩, some ⟨"e"⟩,
            some ⟨"t"⟩, some ⟨"r"⟩, .runExecute, 4, by decide⟩]] = some c ∧
      ((inProgress c).map PendingCommandRow.id).Nodup ∧
      c.queuedBytes = (c.queue.map QueueEntry.bytes).sum :=
  (machine _).exists_run rfl fun _ hc =>
    ⟨(coordinator_invariants _ hc).1, (coordinator_invariants _ hc).2.2.2.2.2.2.2.2⟩

end Opensteer.ExecutionCoordinator
