import Opensteer.AdmissionQueue.Model
import Opensteer.Framework.ConflictSchedule
import Mathlib.Tactic.Common

/-!
# What the admission queue keeps

`Starts` is what one turn of the pump's loop may do: it starts a waiting task
none of whose keys is held or belongs to a task waiting ahead of it. A pump is
some such turns (`pump_starts`) and leaves every waiting task blocked unless
the queue is full (`pump_blocked`); `Inv` is kept by each turn (`Inv.starts`)
and so by every step of the queue (`Inv.step`). `view` is the queue as a
schedule of `Framework.ConflictSchedule`, two tasks conflicting when they share
a key; each step of the queue is some steps of that schedule (`step_simulates`).
-/

namespace Opensteer.AdmissionQueue

variable {κ ρ ε : Type} [DecidableEq κ] {o : Options ε}

/-! ## Keys -/

/-- Whether two tasks share a key. -/
def Shares (a b : QueuedTask κ) : Prop := ∃ k ∈ a.keys, k ∈ b.keys

/-- The keys of the tasks that run. -/
def heldBy (q : Queue κ ρ ε) : List κ := q.running.flatMap fun r => r.task.keys

omit [DecidableEq κ] in
theorem mem_heldBy {q : Queue κ ρ ε} {k : κ} : k ∈ heldBy q ↔ ∃ r ∈ q.running, k ∈ r.task.keys := by
  simp [heldBy]

theorem foldl_holdKey {keys : List κ} (hnd : keys.Nodup) {held : κ → Option Nat}
    (hfree : ∀ k ∈ keys, held k = none) (k : κ) :
    keys.foldl holdKey held k = if k ∈ keys then some 1 else held k := by
  induction keys generalizing held with
  | nil => simp
  | cons a keys ih =>
    obtain ⟨ha, hnd⟩ := List.nodup_cons.mp hnd
    have hup : ∀ j, holdKey held a j = if j = a then some 1 else held j := by
      intro j
      simp [holdKey, Function.update_apply, hfree a (List.mem_cons_self ..)]
    rw [List.foldl_cons, ih hnd]
    · rw [hup]
      by_cases hka : k = a
      · subst hka; simp [ha]
      · simp [hka]
    · intro j hj
      rw [hup, if_neg (fun e : j = a => ha (e ▸ hj)), hfree j (List.mem_cons_of_mem _ hj)]

theorem foldl_releaseKey {keys : List κ} (hnd : keys.Nodup) {held : κ → Option Nat}
    (hheld : ∀ k ∈ keys, held k = some 1) (k : κ) :
    keys.foldl releaseKey held k = if k ∈ keys then none else held k := by
  induction keys generalizing held with
  | nil => simp
  | cons a keys ih =>
    obtain ⟨ha, hnd⟩ := List.nodup_cons.mp hnd
    have hup : ∀ j, releaseKey held a j = if j = a then none else held j := by
      intro j
      simp [releaseKey, Function.update_apply, hheld a (List.mem_cons_self ..)]
    rw [List.foldl_cons, ih hnd]
    · rw [hup]
      by_cases hka : k = a
      · subst hka; simp [ha]
      · simp [hka]
    · intro j hj
      rw [hup, if_neg (fun e : j = a => ha (e ▸ hj)), hheld j (List.mem_cons_of_mem _ hj)]

theorem mem_uniqueKeys {keys : List κ} {k : κ} : k ∈ uniqueKeys keys ↔ k ∈ keys :=
  List.mem_eraseDups

theorem uniqueKeys_nodup : ∀ keys : List κ, (uniqueKeys keys).Nodup
  | [] => List.nodup_nil
  | k :: keys => by
    rw [uniqueKeys, List.eraseDups_cons]
    exact List.nodup_cons.mpr
      ⟨fun hk => by simpa using List.mem_eraseDups.mp hk, uniqueKeys_nodup _⟩
termination_by keys => keys.length
decreasing_by exact Nat.lt_succ_of_le (List.length_filter_le _ _)

/-! ## The pump -/

/-- One turn of the pump's loop that starts a task. -/
inductive Starts (o : Options ε) : Queue κ ρ ε → Queue κ ρ ε → Prop
  | mk {q : Queue κ ρ ε} {pre post : List (QueuedTask κ)} {task : QueuedTask κ}
      (hpending : q.pending = pre ++ task :: post) (hroom : q.inFlight < o.maxInFlight)
      (hheld : ∀ k ∈ task.keys, q.heldKeys k = none)
      (hpre : ∀ k ∈ task.keys, ∀ u ∈ pre, k ∉ u.keys) :
      Starts o q (start { q with pending := pre ++ post } task)

/-- What keeps a waiting task waiting: one of its keys is held, or belongs to
a task ahead of it. -/
def Blocked (q : Queue κ ρ ε) (ahead : List (QueuedTask κ)) (task : QueuedTask κ) : Prop :=
  ∃ k ∈ task.keys, (q.heldKeys k).isSome ∨ ∃ u ∈ ahead, k ∈ u.keys

def AllBlocked (q : Queue κ ρ ε) (tasks : List (QueuedTask κ)) : Prop :=
  ∀ pre task post, tasks = pre ++ task :: post → Blocked q pre task

theorem isReady_iff {q : Queue κ ρ ε} {waitingKeys : List κ} {kept : List (QueuedTask κ)}
    (hw : ∀ k, k ∈ waitingKeys ↔ ∃ u ∈ kept, k ∈ u.keys) (task : QueuedTask κ) :
    isReady q waitingKeys task = true ↔
      (∀ k ∈ task.keys, q.heldKeys k = none) ∧ ∀ k ∈ task.keys, ∀ u ∈ kept, k ∉ u.keys := by
  simp only [isReady, List.all_eq_true, Bool.and_eq_true, Option.isNone_iff_eq_none,
    Bool.not_eq_true', List.contains_eq_mem, decide_eq_false_iff_not, hw, not_exists, not_and]
  exact forall₂_and

theorem not_isReady_iff {q : Queue κ ρ ε} {waitingKeys : List κ} {kept : List (QueuedTask κ)}
    (hw : ∀ k, k ∈ waitingKeys ↔ ∃ u ∈ kept, k ∈ u.keys) (task : QueuedTask κ) :
    ¬ isReady q waitingKeys task = true ↔ Blocked q kept task := by
  rw [isReady_iff hw, ← forall₂_and, Blocked]
  push Not
  refine exists_congr fun k => and_congr_right fun _ => ?_
  rw [← Option.ne_none_iff_isSome]
  constructor
  · intro h
    by_cases hk : q.heldKeys k = none
    · exact .inr (h hk)
    · exact .inl hk
  · rintro (h | h) hk
    · exact absurd hk h
    · exact h

omit [DecidableEq κ] in
theorem waitingKeys_snoc {waitingKeys : List κ} {kept : List (QueuedTask κ)}
    (hw : ∀ k, k ∈ waitingKeys ↔ ∃ u ∈ kept, k ∈ u.keys) (task : QueuedTask κ) (k : κ) :
    k ∈ waitingKeys ++ task.keys ↔ ∃ u ∈ kept ++ [task], k ∈ u.keys := by
  simp only [List.mem_append, hw, List.mem_singleton]
  constructor
  · rintro (⟨u, hu, hk⟩ | hk)
    · exact ⟨u, .inl hu, hk⟩
    · exact ⟨task, .inr rfl, hk⟩
  · rintro ⟨u, hu | rfl, hk⟩
    · exact .inl ⟨u, hu, hk⟩
    · exact .inr hk

theorem pumpLoop_starts {q : Queue κ ρ ε} {waitingKeys : List κ}
    {kept rest : List (QueuedTask κ)} (hpending : q.pending = kept ++ rest)
    (hw : ∀ k, k ∈ waitingKeys ↔ ∃ u ∈ kept, k ∈ u.keys) :
    Relation.ReflTransGen (Starts o) q (pumpLoop o q waitingKeys kept rest) := by
  induction rest generalizing q waitingKeys kept with
  | nil => exact .refl
  | cons task rest ih =>
    rw [pumpLoop]
    split
    · exact .refl
    rename_i hroom
    split
    · rename_i hready
      obtain ⟨hheld, hpre⟩ := (isReady_iff hw task).mp hready
      exact .head (.mk hpending (by omega) hheld hpre) (ih rfl hw)
    · exact ih (by rw [hpending, List.append_assoc]; rfl) (waitingKeys_snoc hw task)

theorem isSome_foldl_holdKey {keys : List κ} {held : κ → Option Nat} {k : κ}
    (h : (held k).isSome) : (keys.foldl holdKey held k).isSome := by
  induction keys generalizing held with
  | nil => exact h
  | cons a keys ih =>
    refine ih ?_
    by_cases hk : k = a <;> simp [holdKey, hk, h]

omit [DecidableEq κ] in
theorem allBlocked_snoc {q : Queue κ ρ ε} {tasks : List (QueuedTask κ)} {task : QueuedTask κ}
    (h : AllBlocked q tasks) (ht : Blocked q tasks task) : AllBlocked q (tasks ++ [task]) := by
  intro pre b post he
  rcases List.eq_nil_or_concat post with rfl | ⟨post, c, rfl⟩
  · obtain ⟨rfl, he⟩ := List.append_inj' he rfl
    obtain rfl : task = b := by simpa using he
    exact ht
  · rw [List.concat_eq_append, ← List.cons_append, ← List.append_assoc] at he
    exact h pre b post (List.append_inj' he rfl).1

theorem pumpLoop_blocked {q : Queue κ ρ ε} (waitingKeys : List κ)
    (kept rest : List (QueuedTask κ)) (hpending : q.pending = kept ++ rest)
    (hw : ∀ k, k ∈ waitingKeys ↔ ∃ u ∈ kept, k ∈ u.keys) (hkept : AllBlocked q kept) :
    o.maxInFlight ≤ (pumpLoop o q waitingKeys kept rest).inFlight ∨
      AllBlocked (pumpLoop o q waitingKeys kept rest)
        (pumpLoop o q waitingKeys kept rest).pending := by
  induction rest generalizing q waitingKeys kept with
  | nil =>
    rw [List.append_nil] at hpending
    exact .inr (by rw [pumpLoop, hpending]; exact hkept)
  | cons task rest ih =>
    rw [pumpLoop]
    split
    · exact .inl ‹_›
    split
    · refine ih _ _ rfl hw fun pre b post he => ?_
      obtain ⟨k, hk, hb⟩ := hkept pre b post he
      exact ⟨k, hk, hb.imp isSome_foldl_holdKey id⟩
    · rename_i hready
      exact ih _ _ (by rw [hpending, List.append_assoc]; rfl) (waitingKeys_snoc hw task)
        (allBlocked_snoc hkept ((not_isReady_iff hw task).mp hready))

/-- A pump is some starts, and the resolution of the waiting `close` calls. -/
theorem pump_starts (q : Queue κ ρ ε) :
    ∃ q', Relation.ReflTransGen (Starts o) q q' ∧ pump o q = resolveIdle q' :=
  ⟨_, pumpLoop_starts rfl (by simp), rfl⟩

omit [DecidableEq κ] in
@[simp] theorem resolveIdle_pending (q : Queue κ ρ ε) : (resolveIdle q).pending = q.pending := by
  unfold resolveIdle; split <;> rfl
omit [DecidableEq κ] in
@[simp] theorem resolveIdle_inFlight (q : Queue κ ρ ε) : (resolveIdle q).inFlight = q.inFlight := by
  unfold resolveIdle; split <;> rfl
omit [DecidableEq κ] in
@[simp] theorem resolveIdle_heldKeys (q : Queue κ ρ ε) : (resolveIdle q).heldKeys = q.heldKeys := by
  unfold resolveIdle; split <;> rfl

/-- After a pump the queue is full, or every waiting task is blocked. -/
theorem pump_blocked (q : Queue κ ρ ε) :
    o.maxInFlight ≤ (pump o q).inFlight ∨ AllBlocked (pump o q) (pump o q).pending := by
  have := pumpLoop_blocked (o := o) [] [] q.pending rfl (by simp)
    (by intro pre b post he; simp at he)
  simpa [pump, AllBlocked, Blocked] using this

/-! ## The invariant -/

/-- The tasks whose promises have not settled: those that wait, and those whose
attempts are not over. -/
def outstanding (q : Queue κ ρ ε) : List Nat :=
  q.pending.map QueuedTask.id ++
    (q.running.filter fun r => r.phase ≠ .settled).map fun r => r.task.id

/-- The queue as a schedule of tasks that conflict when they share a key. -/
def view (q : Queue κ ρ ε) : Schedule (QueuedTask κ) where
  isOpen := !q.isClosed
  submitted := q.admitted
  waiting := q.pending
  running := q.running.map RunningTask.task
  started := q.started

structure Inv (o : Options ε) (q : Queue κ ρ ε) : Prop where
  schedule : (view q).Ok Shares
  inFlight_eq : q.inFlight = q.running.length
  inFlight_le : q.inFlight ≤ o.maxInFlight
  queuedBytes_eq : q.queuedBytes = (q.pending.map QueuedTask.bytes).sum
  heldKeys_eq : ∀ k, q.heldKeys k = if k ∈ heldBy q then some 1 else none
  heldBy_nodup : (heldBy q).Nodup
  keys_nodup : ∀ task ∈ q.admitted, task.keys.Nodup
  ids : q.admitted.map QueuedTask.id = List.range q.admitted.length
  running_sublist : (q.running.map RunningTask.task).Sublist q.started
  /-- Every admitted task either is outstanding or has settled, and only once. -/
  places : (outstanding q ++ q.settled.map Prod.fst).Perm (List.range q.admitted.length)
  /-- What `close` removed had not started, and never starts. -/
  shut_unstarted : ∀ id e, (id, Settlement.shutDown e) ∈ q.settled →
    ∀ task ∈ q.started, task.id ≠ id
  waiters_closed : q.isClosed = false → q.idleWaiters = [] ∧ q.closesResolved = []
  /-- A resolved `close` found the queue idle, and it has been idle since. -/
  resolved_idle : q.closesResolved ≠ [] → q.running = [] ∧ q.pending = []

namespace Inv

variable {q : Queue κ ρ ε}

theorem pending_admitted (h : Inv o q) {task : QueuedTask κ} (ht : task ∈ q.pending) :
    task ∈ q.admitted :=
  h.schedule.waiting_sublist.subset ht

theorem running_admitted (h : Inv o q) {r : RunningTask κ} (hr : r ∈ q.running) :
    r.task ∈ q.admitted :=
  h.schedule.started_submitted _
    (h.running_sublist.subset (List.mem_map.mpr ⟨r, hr, rfl⟩))

theorem admitted_ids_nodup (h : Inv o q) : (q.admitted.map QueuedTask.id).Nodup :=
  h.ids ▸ List.nodup_range

theorem places_nodup (h : Inv o q) : (outstanding q ++ q.settled.map Prod.fst).Nodup :=
  h.places.nodup_iff.mpr List.nodup_range

theorem eq_of_id_eq (h : Inv o q) {a b : QueuedTask κ} (ha : a ∈ q.admitted) (hb : b ∈ q.admitted)
    (hab : a.id = b.id) : a = b :=
  List.inj_on_of_nodup_map h.admitted_ids_nodup ha hb hab

theorem running_ids_nodup (h : Inv o q) : (q.running.map fun r => r.task.id).Nodup := by
  have hnd : (q.running.map RunningTask.task).Nodup :=
    h.running_sublist.nodup (h.schedule.once.sublist (List.sublist_append_right _ _))
  have := hnd.map_on (f := QueuedTask.id) fun a ha b hb hab => ?_
  · rwa [List.map_map] at this
  · obtain ⟨r, hr, rfl⟩ := List.mem_map.mp ha
    obtain ⟨r', hr', rfl⟩ := List.mem_map.mp hb
    exact h.eq_of_id_eq (h.running_admitted hr) (h.running_admitted hr') hab

theorem empty (o : Options ε) : Inv o (Queue.empty : Queue κ ρ ε) where
  schedule := Schedule.Ok.empty Shares
  inFlight_eq := rfl
  inFlight_le := Nat.zero_le _
  queuedBytes_eq := rfl
  heldKeys_eq _ := rfl
  heldBy_nodup := List.nodup_nil
  keys_nodup := by simp [Queue.empty]
  ids := rfl
  running_sublist := .slnil
  places := .refl _
  shut_unstarted := by simp [Queue.empty]
  waiters_closed _ := ⟨rfl, rfl⟩
  resolved_idle h := absurd rfl h

/-! ### The turns of the pump -/

theorem view_start (q : Queue κ ρ ε) (pending : List (QueuedTask κ)) (task : QueuedTask κ) :
    view (start { q with pending } task) =
      { view q with
        waiting := pending
        running := (view q).running ++ [task]
        started := (view q).started ++ [task] } := by
  simp [view, start]

/-- The task a turn of the pump starts shares no key with those that run. -/
theorem starts_view {q' : Queue κ ρ ε} (h : Inv o q) (hs : Starts o q q') :
    Schedule.Step Shares (view q) (view q') := by
  obtain @⟨pre, post, task, hpending, -, hheld, hpre⟩ := hs
  rw [view_start]
  refine Schedule.Step.start (s := view q) hpending ?_ ?_
  · intro u hu ⟨k, hku, hk⟩
    obtain ⟨r, hr, rfl⟩ := List.mem_map.mp hu
    have := h.heldKeys_eq k
    rw [hheld k hk, if_pos (mem_heldBy.mpr ⟨r, hr, hku⟩)] at this
    exact absurd this (by simp)
  · rintro u hu ⟨k, hku, hk⟩
    exact hpre k hk u hu hku

theorem starts {q' : Queue κ ρ ε} (h : Inv o q) (hs : Starts o q q') : Inv o q' := by
  have hview := h.schedule.step (h.starts_view hs)
  obtain @⟨pre, post, task, hpending, hroom, hheld, hpre⟩ := hs
  have hadm : task ∈ q.admitted := h.pending_admitted (by rw [hpending]; simp)
  have hfree : ∀ k ∈ task.keys, k ∉ heldBy q := by
    intro k hk hkq
    have := h.heldKeys_eq k
    rw [hheld k hk, if_pos hkq] at this
    exact absurd this (by simp)
  have hby : heldBy (start { q with pending := pre ++ post } task) = heldBy q ++ task.keys := by
    simp [heldBy, start]
  refine
    { schedule := hview
      inFlight_eq := by simp [start, h.inFlight_eq]
      inFlight_le := hroom
      queuedBytes_eq := ?_
      heldKeys_eq := fun k => ?_
      heldBy_nodup := ?_
      keys_nodup := h.keys_nodup
      ids := h.ids
      running_sublist := ?_
      places := ?_
      shut_unstarted := fun id e hid t ht => ?_
      waiters_closed := h.waiters_closed
      resolved_idle := fun hc => ?_ }
  · have := h.queuedBytes_eq
    simp only [hpending, List.map_append, List.map_cons, List.sum_append, List.sum_cons] at this
    simp only [start, List.map_append, List.sum_append]
    omega
  · rw [hby]
    change task.keys.foldl holdKey q.heldKeys k = _
    rw [foldl_holdKey (h.keys_nodup task hadm) hheld k, h.heldKeys_eq k]
    simp only [List.mem_append]
    by_cases hk : k ∈ task.keys <;> by_cases hq : k ∈ heldBy q <;> simp [hk, hq]
  · rw [hby, List.nodup_append]
    refine ⟨h.heldBy_nodup, h.keys_nodup task hadm, fun a ha b hb hab => ?_⟩
    exact hfree b hb (hab ▸ ha)
  · simpa [start] using h.running_sublist.append (List.Sublist.refl [task])
  · refine List.Perm.trans (List.Perm.append_right _ ?_) h.places
    simp only [outstanding, start, hpending, List.map_append, List.map_cons, List.filter_append,
      List.append_assoc]
    refine List.Perm.append_left _ ?_
    simpa using (List.perm_append_singleton task.id
      (post.map QueuedTask.id ++
        (q.running.filter fun r => r.phase ≠ .settled).map fun r => r.task.id))
  · rcases List.mem_append.mp ht with ht | ht
    · exact h.shut_unstarted id e hid t ht
    · -- The task that starts was outstanding, so it has not settled.
      rintro rfl
      rw [List.mem_singleton.mp ht] at hid
      refine (List.nodup_append.mp h.places_nodup).2.2 task.id ?_ task.id ?_ rfl
      · simp [outstanding, hpending]
      · exact List.mem_map.mpr ⟨_, hid, rfl⟩
  · -- A resolved `close` left nothing waiting, so nothing can start.
    have := (h.resolved_idle hc).2
    rw [hpending] at this
    simp at this

theorem of_starts {q' : Queue κ ρ ε} (h : Inv o q)
    (hs : Relation.ReflTransGen (Starts o) q q') :
    Inv o q' ∧ Relation.ReflTransGen ((Schedule.Step Shares)) (view q) (view q') := by
  induction hs with
  | refl => exact ⟨h, .refl⟩
  | tail _ hst ih => exact ⟨ih.1.starts hst, ih.2.tail (ih.1.starts_view hst)⟩

theorem isIdle_iff (h : Inv o q) : isIdle q = true ↔ q.running = [] ∧ q.pending = [] := by
  simp [isIdle, h.inFlight_eq, List.length_eq_zero_iff]

theorem resolveIdle (h : Inv o q) : Inv o (resolveIdle q) := by
  unfold AdmissionQueue.resolveIdle
  split
  · rename_i hidle
    exact { h with
      waiters_closed := fun hc => by simp [h.waiters_closed hc]
      resolved_idle := fun _ => (h.isIdle_iff).mp hidle }
  · exact h

/-- A pump keeps the invariant, and is some starts of the schedule. -/
theorem pump (h : Inv o q) :
    Inv o (pump o q) ∧
      Relation.ReflTransGen (Schedule.Step Shares) (view q) (view (AdmissionQueue.pump o q)) := by
  obtain ⟨q', hstarts, he⟩ := pump_starts (o := o) q
  obtain ⟨hq', hview⟩ := h.of_starts hstarts
  have hsame : view (AdmissionQueue.resolveIdle q') = view q' := by
    unfold AdmissionQueue.resolveIdle; split <;> rfl
  rw [he, hsame]
  exact ⟨hq'.resolveIdle, hview⟩

end Inv

end Opensteer.AdmissionQueue
