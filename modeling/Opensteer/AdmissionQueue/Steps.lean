import Opensteer.AdmissionQueue.Invariant

/-!
# The steps of the admission queue

Every step keeps `Inv` and is some steps of the schedule `view` makes of the
queue (`step_simulates`); after every step the queue is full or every waiting
task is blocked (`step_blocked`); and a task settles with the outcome of one of
its own attempts, or with the error of the `close` that removed it
(`settled_cause`).
-/

namespace Opensteer.AdmissionQueue

variable {κ ρ ε : Type} [DecidableEq κ] {o : Options ε} {q q' : Queue κ ρ ε}

/-! ## A started task -/

omit [DecidableEq κ] in
theorem findRunning_split (hnd : (q.running.map fun r => r.task.id).Nodup) {id : Nat}
    {r : RunningTask κ} (h : findRunning q id = some r) :
    ∃ l₁ l₂, q.running = l₁ ++ r :: l₂ ∧ r.task.id = id ∧ ∀ x ∈ l₁ ++ l₂, x.task.id ≠ id := by
  obtain ⟨hid, l₁, l₂, he, -⟩ := List.find?_eq_some_iff_append.mp h
  have hid : r.task.id = id := by simpa using hid
  refine ⟨l₁, l₂, he, hid, fun x hx hxid => ?_⟩
  rw [he] at hnd
  have hcons : (r.task.id :: (l₁ ++ l₂).map fun r => r.task.id).Nodup := by
    refine (List.Perm.nodup_iff ?_).mp hnd
    simp [List.perm_middle]
  exact (List.nodup_cons.mp hcons).1 (List.mem_map.mpr ⟨x, hx, by rw [hxid, hid]⟩)

omit [DecidableEq κ] in
theorem setPhase_running {id : Nat} {l₁ l₂ : List (RunningTask κ)} {r : RunningTask κ}
    (he : q.running = l₁ ++ r :: l₂) (hid : r.task.id = id)
    (hne : ∀ x ∈ l₁ ++ l₂, x.task.id ≠ id) (phase : Phase) :
    (setPhase q id phase).running = l₁ ++ ⟨r.task, phase⟩ :: l₂ := by
  have hsame : ∀ l : List (RunningTask κ), (∀ x ∈ l, x.task.id ≠ id) →
      l.map (fun r => if r.task.id = id then { r with phase } else r) = l := by
    intro l hl
    conv_rhs => rw [← List.map_id l]
    exact List.map_congr_left fun x hx => if_neg (hl x hx)
  simp only [setPhase, he, List.map_append, List.map_cons, hid, if_true]
  rw [hsame l₁ fun x hx => hne x (List.mem_append_left _ hx),
    hsame l₂ fun x hx => hne x (List.mem_append_right _ hx)]

omit [DecidableEq κ] in
theorem filter_running {id : Nat} {l₁ l₂ : List (RunningTask κ)} {r : RunningTask κ}
    (he : q.running = l₁ ++ r :: l₂) (hid : r.task.id = id)
    (hne : ∀ x ∈ l₁ ++ l₂, x.task.id ≠ id) :
    (q.running.filter fun r => r.task.id ≠ id) = l₁ ++ l₂ := by
  have hsame : ∀ l : List (RunningTask κ), (∀ x ∈ l, x.task.id ≠ id) →
      l.filter (fun r => r.task.id ≠ id) = l :=
    fun l hl => List.filter_eq_self.mpr fun x hx => by simpa using hl x hx
  rw [he, List.filter_append, List.filter_cons_of_neg (by simpa using hid),
    hsame l₁ fun x hx => hne x (List.mem_append_left _ hx),
    hsame l₂ fun x hx => hne x (List.mem_append_right _ hx)]

omit [DecidableEq κ] in
theorem outstanding_split {l₁ l₂ : List (RunningTask κ)} {r : RunningTask κ}
    (he : q.running = l₁ ++ r :: l₂) :
    outstanding q = q.pending.map QueuedTask.id ++
      ((l₁.filter fun r => r.phase ≠ .settled).map (fun r => r.task.id) ++
        ((if r.phase = .settled then [] else [r.task.id]) ++
          (l₂.filter fun r => r.phase ≠ .settled).map fun r => r.task.id)) := by
  rw [outstanding, he, List.filter_append, List.map_append, List.filter_cons]
  by_cases hp : r.phase = .settled <;> simp [hp]

namespace Inv

/-- A started task that goes on to another phase, and has settled in it exactly
when its settlement was recorded. -/
theorem rephase (h : Inv o q) {id : Nat} {r : RunningTask κ} (hr : findRunning q id = some r)
    (hphase : r.phase ≠ .settled) {phase : Phase} (settlements : List (Nat × Settlement ρ ε))
    (hs : settlements.map Prod.fst = if phase = .settled then [id] else [])
    (hown : ∀ e, (id, Settlement.shutDown e) ∉ settlements) :
    Inv o { setPhase q id phase with settled := q.settled ++ settlements } ∧
      view { setPhase q id phase with settled := q.settled ++ settlements } = view q := by
  obtain ⟨l₁, l₂, he, hid, hne⟩ := findRunning_split h.running_ids_nodup hr
  have hrun := setPhase_running he hid hne phase
  have htasks : (setPhase q id phase).running.map RunningTask.task =
      q.running.map RunningTask.task := by
    rw [hrun, he]; simp
  have hview : view { setPhase q id phase with settled := q.settled ++ settlements } = view q := by
    simp only [view, htasks]
    rfl
  have hby : heldBy { setPhase q id phase with settled := q.settled ++ settlements } =
      heldBy q := by
    simp only [heldBy, hrun, he, List.flatMap_append, List.flatMap_cons]
  refine ⟨?_, hview⟩
  exact
    { schedule := hview ▸ h.schedule
      inFlight_eq := by
        rw [show (setPhase q id phase).running.length = q.running.length by simp [setPhase]]
        exact h.inFlight_eq
      inFlight_le := h.inFlight_le
      queuedBytes_eq := h.queuedBytes_eq
      heldKeys_eq := fun k => by rw [hby]; exact h.heldKeys_eq k
      heldBy_nodup := hby ▸ h.heldBy_nodup
      keys_nodup := h.keys_nodup
      ids := h.ids
      running_sublist := htasks ▸ h.running_sublist
      places := by
        refine List.Perm.trans ?_ h.places
        rw [outstanding_split he, outstanding_split (q := { setPhase q id phase with
          settled := q.settled ++ settlements }) hrun, List.map_append, hs, if_neg hphase, hid]
        change (q.pending.map QueuedTask.id ++ _ ++ _).Perm _
        by_cases hp : phase = .settled
        · simp only [hp, if_true, List.nil_append, List.append_assoc, List.singleton_append]
          refine List.Perm.append_left _ (List.Perm.append_left _ ?_)
          rw [← List.append_assoc]
          exact List.perm_append_singleton id _
        · simp [hp]
      shut_unstarted := fun j e hj => by
        rcases List.mem_append.mp hj with hj | hj
        · exact h.shut_unstarted j e hj
        · have hmem : j ∈ settlements.map Prod.fst := List.mem_map.mpr ⟨_, hj, rfl⟩
          have hjid : j = id := by
            rw [hs] at hmem
            split at hmem <;> simp_all
          exact absurd hj (hjid ▸ hown e)
      waiters_closed := h.waiters_closed
      resolved_idle := fun hc => by
        have := (h.resolved_idle hc).1
        rw [he] at this
        simp at this }

theorem setPhase (h : Inv o q) {id : Nat} {r : RunningTask κ} (hr : findRunning q id = some r)
    (hphase : r.phase ≠ .settled) (phase : Phase) (hp : phase ≠ .settled) :
    Inv o (setPhase q id phase) ∧ view (AdmissionQueue.setPhase q id phase) = view q := by
  have hq : { AdmissionQueue.setPhase q id phase with settled := q.settled ++ [] } =
      AdmissionQueue.setPhase q id phase := by
    simp [AdmissionQueue.setPhase]
  exact hq ▸ h.rephase hr hphase [] (by simp [hp]) (by simp)

theorem attemptEnds (h : Inv o q) {id n : Nat} {task : QueuedTask κ}
    (hr : findRunning q id = some ⟨task, .attempting n⟩) (result : Except ε ρ) :
    Inv o (attemptEnds o q id n result) ∧
      view (AdmissionQueue.attemptEnds o q id n result) = view q := by
  have hne : Phase.attempting n ≠ .settled := by simp
  cases result with
  | ok value => exact h.rephase hr hne _ rfl (by simp)
  | error error =>
    simp only [AdmissionQueue.attemptEnds]
    split
    · exact h.rephase hr hne _ rfl (by simp)
    · exact h.setPhase hr hne (.pausing n) (by simp)

theorem release (h : Inv o q) {id : Nat} {task : QueuedTask κ}
    (hr : findRunning q id = some ⟨task, .settled⟩) :
    Inv o (AdmissionQueue.release q task) ∧ Schedule.Step Shares (view q) (view (AdmissionQueue.release q task)) := by
  obtain ⟨l₁, l₂, he, hid, hne⟩ := findRunning_split h.running_ids_nodup hr
  subst hid
  have hrun : (AdmissionQueue.release q task).running = l₁ ++ l₂ := filter_running he rfl hne
  have hview : Schedule.Step Shares (view q) (view (AdmissionQueue.release q task)) := by
    have hv : view (AdmissionQueue.release q task) =
        { view q with running := l₁.map RunningTask.task ++ l₂.map RunningTask.task } := by
      simp only [view, hrun, List.map_append]
      rfl
    rw [hv]
    exact .finish (t := task) (by simp [view, he])
  have hby : (heldBy q).Perm (task.keys ++ heldBy (AdmissionQueue.release q task)) := by
    simp only [heldBy, he, hrun, List.flatMap_append, List.flatMap_cons]
    exact (List.perm_append_comm_assoc _ _ _)
  have hnd := hby.nodup_iff.mp h.heldBy_nodup
  have hadm : task ∈ q.admitted := h.running_admitted (r := ⟨task, .settled⟩) (by rw [he]; simp)
  refine ⟨?_, hview⟩
  exact
    { schedule := h.schedule.step hview
      inFlight_eq := by
        rw [hrun, List.length_append]
        change q.inFlight - 1 = _
        rw [h.inFlight_eq, he, List.length_append, List.length_cons]
        omega
      inFlight_le := Nat.le_trans (Nat.sub_le _ _) h.inFlight_le
      queuedBytes_eq := h.queuedBytes_eq
      heldKeys_eq := fun k => by
        change task.keys.foldl releaseKey q.heldKeys k = _
        rw [foldl_releaseKey (h.keys_nodup task hadm), h.heldKeys_eq k]
        · have hmem := List.Perm.mem_iff (a := k) hby
          by_cases hk : k ∈ task.keys
          · have : k ∉ heldBy (AdmissionQueue.release q task) :=
              fun hk' => (List.nodup_append.mp hnd).2.2 k hk k hk' rfl
            simp [hk, this]
          · simp [hk, hmem]
        · intro j hj
          rw [h.heldKeys_eq j, if_pos]
          exact (List.Perm.mem_iff hby).mpr (List.mem_append_left _ hj)
      heldBy_nodup := hnd.sublist (List.sublist_append_right _ _)
      keys_nodup := h.keys_nodup
      ids := h.ids
      running_sublist := List.Sublist.trans
        (List.Sublist.map _ List.filter_sublist) h.running_sublist
      places := by
        refine List.Perm.trans (List.Perm.append_right _ ?_) h.places
        refine List.Perm.append_left _ ?_
        rw [hrun, he]
        simp
      shut_unstarted := h.shut_unstarted
      waiters_closed := h.waiters_closed
      resolved_idle := fun hc => by
        have := (h.resolved_idle hc).1
        rw [he] at this
        simp at this }

theorem finish (h : Inv o q) {id : Nat} {task : QueuedTask κ}
    (hr : findRunning q id = some ⟨task, .settled⟩) :
    Inv o (finish o q task) ∧
      Relation.ReflTransGen (Schedule.Step Shares) (view q)
        (view (AdmissionQueue.finish o q task)) := by
  obtain ⟨hrel, hview⟩ := h.release hr
  obtain ⟨hpump, hviews⟩ := hrel.pump
  exact ⟨hpump, .head hview hviews⟩

/-! ## Calls -/

theorem enqueue (h : Inv o q) (hopen : q.isClosed = false) (keys : List κ) (bytes : Nat) :
    Inv o (enqueue q (newTask q keys bytes)) ∧
      Schedule.Step Shares (view q) (view (AdmissionQueue.enqueue q (newTask q keys bytes))) := by
  have hnew : newTask q keys bytes ∉ q.admitted := by
    intro hmem
    have hid : q.admitted.length ∈ q.admitted.map QueuedTask.id :=
      List.mem_map.mpr ⟨_, hmem, rfl⟩
    rw [h.ids] at hid
    simp at hid
  have hview : Schedule.Step Shares (view q)
      (view (AdmissionQueue.enqueue q (newTask q keys bytes))) :=
    .submit (s := view q) (by simp [view, hopen]) hnew
  refine ⟨?_, hview⟩
  exact
    { schedule := h.schedule.step hview
      inFlight_eq := h.inFlight_eq
      inFlight_le := h.inFlight_le
      queuedBytes_eq := by simp [AdmissionQueue.enqueue, h.queuedBytes_eq]
      heldKeys_eq := h.heldKeys_eq
      heldBy_nodup := h.heldBy_nodup
      keys_nodup := fun task ht => by
        rcases List.mem_append.mp ht with ht | ht
        · exact h.keys_nodup task ht
        · rw [List.mem_singleton.mp ht]
          exact uniqueKeys_nodup keys
      ids := by
        simp [AdmissionQueue.enqueue, h.ids, newTask, List.range_succ]
      running_sublist := h.running_sublist
      places := by
        simp only [AdmissionQueue.enqueue, outstanding, List.map_append, List.length_append,
          List.length_singleton, List.range_succ, List.append_assoc]
        refine List.Perm.trans ?_ (List.Perm.append_right _ h.places)
        simp only [outstanding, List.append_assoc]
        refine List.Perm.append_left _ ?_
        simpa [newTask] using (List.perm_append_singleton q.admitted.length
          (((q.running.filter fun r => r.phase ≠ .settled).map fun r => r.task.id) ++
            q.settled.map Prod.fst)).symm
      shut_unstarted := h.shut_unstarted
      waiters_closed := h.waiters_closed
      resolved_idle := fun hc => absurd (h.waiters_closed hopen).2 hc }

theorem waitForIdle (h : Inv o q) (hclosed : q.isClosed = true) (n : Nat) :
    Inv o (waitForIdle q n) := by
  unfold AdmissionQueue.waitForIdle
  split
  · rename_i hidle
    exact { h with
      waiters_closed := fun hc => absurd (hclosed.symm.trans hc) (by simp)
      resolved_idle := fun _ => (h.isIdle_iff).mp hidle }
  · exact { h with
      waiters_closed := fun hc => absurd (hclosed.symm.trans hc) (by simp) }

omit [DecidableEq κ] in
@[simp] theorem view_waitForIdle (q : Queue κ ρ ε) (n : Nat) :
    view (AdmissionQueue.waitForIdle q n) = view q := by
  unfold AdmissionQueue.waitForIdle; split <;> rfl

theorem shut (h : Inv o q) :
    Inv o (shut q) ∧ Schedule.Step Shares (view q) (view (AdmissionQueue.shut q)) := by
  have hview : Schedule.Step Shares (view q) (view (AdmissionQueue.shut q)) := .close
  refine ⟨?_, hview⟩
  exact
    { schedule := h.schedule.step hview
      inFlight_eq := h.inFlight_eq
      inFlight_le := h.inFlight_le
      queuedBytes_eq := rfl
      heldKeys_eq := h.heldKeys_eq
      heldBy_nodup := h.heldBy_nodup
      keys_nodup := h.keys_nodup
      ids := h.ids
      running_sublist := h.running_sublist
      places := by
        refine List.Perm.trans ?_ h.places
        simp only [outstanding, AdmissionQueue.shut, List.map_nil, List.nil_append,
          List.map_append, List.map_map, List.append_assoc]
        have hids : (q.pending.map (Prod.fst ∘ fun task =>
            (task.id, Settlement.shutDown (ρ := ρ) (ε := ε) shutdownError))) =
            q.pending.map QueuedTask.id := rfl
        rw [hids, ← List.append_assoc]
        exact List.perm_append_comm
      shut_unstarted := fun id e hid t ht => by
        rcases List.mem_append.mp hid with hid | hid
        · exact h.shut_unstarted id e hid t ht
        · obtain ⟨task, htask, he⟩ := List.mem_map.mp hid
          obtain rfl : task.id = id := congrArg Prod.fst he
          intro hids
          have heq : t = task := h.eq_of_id_eq (h.schedule.started_submitted t ht)
            (h.pending_admitted htask) hids
          exact (List.nodup_append.mp h.schedule.once).2.2 task htask t ht heq.symm
      waiters_closed := fun hc => absurd hc (by simp [AdmissionQueue.shut])
      resolved_idle := fun hc => ⟨(h.resolved_idle hc).1, rfl⟩ }

theorem close (h : Inv o q) :
    Inv o (close q) ∧
      Relation.ReflTransGen (Schedule.Step Shares) (view q) (view (AdmissionQueue.close q)) := by
  have hcalled : Inv o { q with closeCalls := q.closeCalls + 1 } := { h with }
  unfold AdmissionQueue.close
  simp only [view_waitForIdle]
  split
  · rename_i hclosed
    exact ⟨hcalled.waitForIdle hclosed _, .refl⟩
  · obtain ⟨hshut, hview⟩ := hcalled.shut
    exact ⟨hshut.waitForIdle rfl _, .single hview⟩

theorem execute (h : Inv o q) {keys : List κ} {estimatedBytes : Estimate}
    (he : execute o q keys estimatedBytes = .ok q') :
    Inv o q' ∧ Relation.ReflTransGen (Schedule.Step Shares) (view q) (view q') := by
  unfold AdmissionQueue.execute at he
  split at he
  · cases he
  rename_i hopen
  split at he
  · cases he
  · cases he
  split at he
  · cases he
  cases he
  obtain ⟨henq, hview⟩ := h.enqueue (by simpa using hopen) keys _
  obtain ⟨hpump, hviews⟩ := henq.pump
  exact ⟨hpump, .head hview hviews⟩

end Inv

/-! ## Every step -/

/-- Every step of the queue keeps its invariant and is some steps of the
schedule of its tasks. -/
theorem step_simulates (o : Options ε) :
    (machine o : Machine (Queue κ ρ ε) _).Simulates (Inv o) (Schedule.Step Shares) view := by
  intro q a q' h hs
  cases a with
  | execute keys estimatedBytes =>
    simp only [machine, step] at hs
    split at hs
    · rename_i hok
      cases hs
      exact h.execute hok
    · cases hs
      exact ⟨h, .refl⟩
  | attemptEnds id result =>
    simp only [machine, step] at hs
    split at hs
    · rename_i hr
      cases hs
      obtain ⟨hinv, hview⟩ := h.attemptEnds hr result
      exact ⟨hinv, hview ▸ .refl⟩
    · cases hs
  | pauseEnds id =>
    simp only [machine, step] at hs
    split at hs
    · rename_i hr
      cases hs
      obtain ⟨hinv, hview⟩ := h.setPhase hr (by simp) (.attempting _) (by simp)
      exact ⟨hinv, hview ▸ .refl⟩
    · cases hs
  | finish id =>
    simp only [machine, step] at hs
    split at hs
    · rename_i hr
      cases hs
      exact h.finish hr
    · cases hs
  | close =>
    simp only [machine, step, Option.some.injEq] at hs
    exact hs ▸ h.close

/-! ## What holds after every step -/

/-- The queue is full, or every waiting task is blocked. -/
def Saturated (o : Options ε) (q : Queue κ ρ ε) : Prop :=
  o.maxInFlight ≤ q.inFlight ∨ AllBlocked q q.pending

omit [DecidableEq κ] in
theorem Saturated.congr (h : Saturated o q) (hfl : q'.inFlight = q.inFlight)
    (hheld : q'.heldKeys = q.heldKeys) (hpending : q'.pending = q.pending ∨ q'.pending = []) :
    Saturated o q' := by
  rcases h with h | h
  · exact .inl (hfl ▸ h)
  · refine .inr fun pre task post he => ?_
    rcases hpending with hp | hp
    · obtain ⟨k, hk, hb⟩ := h pre task post (hp ▸ he)
      exact ⟨k, hk, hb.imp (fun hk => by rw [hheld]; exact hk) id⟩
    · rw [hp] at he
      simp at he

omit [DecidableEq κ] in
theorem waitForIdle_fields (q : Queue κ ρ ε) (n : Nat) :
    (waitForIdle q n).inFlight = q.inFlight ∧ (waitForIdle q n).heldKeys = q.heldKeys ∧
      (waitForIdle q n).pending = q.pending ∧ (waitForIdle q n).settled = q.settled := by
  unfold waitForIdle; split <;> exact ⟨rfl, rfl, rfl, rfl⟩

omit [DecidableEq κ] in
theorem attemptEnds_fields (q : Queue κ ρ ε) (id n : Nat) (result : Except ε ρ) :
    (attemptEnds o q id n result).inFlight = q.inFlight ∧
      (attemptEnds o q id n result).heldKeys = q.heldKeys ∧
      (attemptEnds o q id n result).pending = q.pending := by
  cases result with
  | ok value => exact ⟨rfl, rfl, rfl⟩
  | error error => simp only [attemptEnds]; split <;> exact ⟨rfl, rfl, rfl⟩

theorem step_saturated {a : Action κ ρ ε} (h : Saturated o q) (hs : step o q a = some q') :
    Saturated o q' := by
  cases a with
  | execute keys estimatedBytes =>
    simp only [step] at hs
    split at hs
    · rename_i hok
      cases hs
      unfold execute at hok
      split at hok
      · cases hok
      split at hok
      · cases hok
      · cases hok
      split at hok
      · cases hok
      cases hok
      exact pump_blocked _
    · cases hs
      exact h
  | attemptEnds id result =>
    simp only [step] at hs
    split at hs <;> cases hs
    obtain ⟨hfl, hheld, hp⟩ := attemptEnds_fields (o := o) q id _ result
    exact h.congr hfl hheld (.inl hp)
  | pauseEnds id =>
    simp only [step] at hs
    split at hs <;> cases hs
    exact h.congr rfl rfl (.inl rfl)
  | finish id =>
    simp only [step] at hs
    split at hs <;> cases hs
    exact pump_blocked _
  | close =>
    simp only [step, Option.some.injEq] at hs
    subst hs
    unfold close
    obtain ⟨hfl, hheld, hp, -⟩ := waitForIdle_fields
      (if q.isClosed then { q with closeCalls := q.closeCalls + 1 }
        else shut { q with closeCalls := q.closeCalls + 1 }) q.closeCalls
    refine h.congr (hfl.trans ?_) (hheld.trans ?_) ?_
    · split <;> rfl
    · split <;> rfl
    · simp only [hp]
      split
      · exact .inl rfl
      · exact .inr rfl

/-- What a settlement answers to: an outcome of one of the task's own attempts,
or a `close`. -/
def Cause (actions : List (Action κ ρ ε)) : Nat × Settlement ρ ε → Prop
  | (id, .resolved value) => .attemptEnds id (.ok value) ∈ actions
  | (id, .rejected error) => .attemptEnds id (.error error) ∈ actions
  | (_, .shutDown error) => error = shutdownError ∧ .close ∈ actions

omit [DecidableEq κ] in
theorem Cause.mono {actions more : List (Action κ ρ ε)} {p : Nat × Settlement ρ ε}
    (h : Cause actions p) : Cause (actions ++ more) p := by
  obtain ⟨id, value | error | error⟩ := p
  · exact List.mem_append_left _ h
  · exact List.mem_append_left _ h
  · exact ⟨h.1, List.mem_append_left _ h.2⟩

theorem starts_settled (hs : Relation.ReflTransGen (Starts o) q q') : q'.settled = q.settled := by
  induction hs with
  | refl => rfl
  | tail _ hst ih =>
    obtain ⟨-, -, -, -⟩ := hst
    exact ih

omit [DecidableEq κ] in
theorem resolveIdle_settled (q : Queue κ ρ ε) : (resolveIdle q).settled = q.settled := by
  unfold resolveIdle; split <;> rfl

theorem pump_settled (q : Queue κ ρ ε) : (pump o q).settled = q.settled := by
  obtain ⟨q', hs, he⟩ := pump_starts (o := o) q
  rw [he, resolveIdle_settled, starts_settled hs]

/-- What an action settles is settled by the action. -/
theorem step_settled {a : Action κ ρ ε} (hs : step o q a = some q') :
    ∀ p ∈ q'.settled, p ∈ q.settled ∨ Cause [a] p := by
  intro p hp
  cases a with
  | execute keys estimatedBytes =>
    simp only [step] at hs
    split at hs
    · rename_i hok
      cases hs
      unfold execute at hok
      split at hok
      · cases hok
      split at hok
      · cases hok
      · cases hok
      split at hok
      · cases hok
      cases hok
      rw [pump_settled] at hp
      exact .inl hp
    · cases hs
      exact .inl hp
  | attemptEnds id result =>
    simp only [step] at hs
    split at hs <;> cases hs
    have hsettle : ∀ st : Settlement ρ ε, Cause [Action.attemptEnds (κ := κ) id result] (id, st) →
        p ∈ (settle q id st).settled → p ∈ q.settled ∨ Cause [Action.attemptEnds (κ := κ) id result] p := by
      intro st hst hp
      rcases List.mem_append.mp hp with hp | hp
      · exact .inl hp
      · exact .inr (List.mem_singleton.mp hp ▸ hst)
    cases result with
    | ok value => exact hsettle (.resolved value) (List.mem_singleton_self _) hp
    | error error =>
      simp only [attemptEnds] at hp
      split at hp
      · exact hsettle (.rejected error) (List.mem_singleton_self _) hp
      · exact .inl hp
  | pauseEnds id =>
    simp only [step] at hs
    split at hs <;> cases hs
    exact .inl hp
  | finish id =>
    simp only [step] at hs
    split at hs <;> cases hs
    rw [finish, pump_settled] at hp
    exact .inl hp
  | close =>
    simp only [step, Option.some.injEq] at hs
    subst hs
    unfold close at hp
    rw [(waitForIdle_fields _ _).2.2.2] at hp
    split at hp
    · exact .inl hp
    · rcases List.mem_append.mp hp with hp | hp
      · exact .inl hp
      · obtain ⟨task, -, rfl⟩ := List.mem_map.mp hp
        exact .inr ⟨rfl, List.mem_singleton_self _⟩

/-- Every settlement of a run answers to an action of the run. -/
theorem settled_cause {as : List (Action κ ρ ε)} (hrun : (machine o).run .empty as = some q) :
    ∀ p ∈ q.settled, Cause as p := by
  refine (machine o).run_induction (P := fun as q => ∀ p ∈ q.settled, Cause as p)
    (by simp [Queue.empty]) (fun as q a t _ ih _ hs p hp => ?_)
    ((machine o).meets_true _ _) hrun
  rcases step_settled hs p hp with hp | hp
  · exact (ih p hp).mono
  · obtain ⟨id, value | error | error⟩ := p
    · exact List.mem_append_right _ hp
    · exact List.mem_append_right _ hp
    · exact ⟨hp.1, List.mem_append_right _ hp.2⟩

/-! ## Every run -/

end Opensteer.AdmissionQueue
