import Opensteer.Framework.Chronicle
import Opensteer.UncontainedThreads.Model
import Opensteer.WarmEnginePool.Keeps

/-!
# A Thread that is held is closed

What keeps a Thread closed: the execution that was held last of a Thread's is proven gone last
(`LastProven`) and the pool hands a Thread's Run its engine while none of the Thread's is being retired
(`Handed`). Where another is proven first the Thread opens too early (`not_contained_overwritten`).
-/

namespace Opensteer.UncontainedThreads

open Chronicle WarmEnginePool

/-- The execution has been held for the Thread and not been proven gone since. -/
def Unproven (log : List Event) (threadId : ThreadId) (executionId : ExecutionId) : Prop :=
  ∃ (pre post : List Event), log = pre ++ Event.held threadId executionId :: post ∧ Event.proven threadId executionId ∉ post

/-- Nothing is admitted for a Thread, and no engine is started, while an execution is held for it. -/
def Contained (pre : List Event) (event : Event) : Prop :=
  ∀ threadId, event = .admitted threadId ∨ event = .started threadId → ∀ executionId, ¬Unproven pre threadId executionId

variable {log : List Event} {event : Event} {threadId : ThreadId} {executionId : ExecutionId}

theorem unproven_snoc : Unproven (log ++ [event]) threadId executionId ↔
    event = .held threadId executionId ∨ (Unproven log threadId executionId ∧ event ≠ .proven threadId executionId) := by
  constructor
  · rintro ⟨pre, post, hlog, hpost⟩
    obtain ⟨rfl, -, -⟩ | ⟨post', rfl, hold⟩ := snoc_cases hlog
    · exact .inl rfl
    · rw [List.mem_append, List.mem_singleton, not_or] at hpost
      exact .inr ⟨⟨pre, post', hold, hpost.1⟩, Ne.symm hpost.2⟩
  · rintro (rfl | ⟨⟨pre, post, rfl, hpost⟩, hne⟩)
    · exact ⟨log, [], rfl, List.not_mem_nil⟩
    · refine ⟨pre, post ++ [event], by rw [List.append_assoc, List.cons_append], ?_⟩
      rw [List.mem_append, List.mem_singleton, not_or]
      exact ⟨hpost, hne.symm⟩

theorem not_unproven_nil : ¬Unproven [] threadId executionId := by
  rintro ⟨pre, post, hlog, -⟩
  simp at hlog

/-- The executions that are held for the Thread. -/
def unproven (threadId : ThreadId) (log : List Event) : List ExecutionId :=
  log.foldl (fun held event =>
    match event with
    | .held threadId' executionId => if threadId' = threadId then held ++ [executionId] else held
    | .proven threadId' executionId =>
      if threadId' = threadId then held.filter fun executionId' => executionId' ≠ executionId else held
    | _ => held) []

theorem mem_unproven : executionId ∈ unproven threadId log ↔ Unproven log threadId executionId := by
  induction log using List.reverseRecOn with
  | nil => exact iff_of_false List.not_mem_nil not_unproven_nil
  | append_singleton log event ih =>
    rw [unproven_snoc, ← ih, unproven, unproven, List.foldl_append, List.foldl_cons, List.foldl_nil]
    cases event with
    | held threadId' executionId' =>
      dsimp only
      by_cases hthread : threadId' = threadId
      · simp [hthread, or_comm, @eq_comm _ executionId]
      · simp [hthread]
    | proven threadId' executionId' =>
      dsimp only
      by_cases hthread : threadId' = threadId
      · simp [hthread, @eq_comm _ executionId]
      · simp [hthread]
    | admitted _ => simp
    | started _ => simp

instance (log : List Event) (threadId : ThreadId) (executionId : ExecutionId) :
    Decidable (Unproven log threadId executionId) :=
  decidable_of_iff _ mem_unproven

/-! ## Conditions -/

/-- Where the execution that the Thread is closed for is proven gone, no other is held for it. -/
def LastProven (s : State) : Action → Prop
  | .resolve i .proven => ∀ attempt ∈ s.attempts[i]?,
    s.uncontainedThreads.get attempt.threadId = some attempt.executionId →
      ∀ executionId ∈ unproven attempt.threadId s.log, executionId = attempt.executionId
  | _ => True

/-- Where the pool hands a Thread's Run an engine or none, none of the Thread's is being retired. -/
def Handed (s : State) : Action → Prop
  | .resume i _ => ∀ call ∈ s.warm.calls[i]?, ∀ threadId ∈ call.takes, s.warm.underWay WarmEngine.threadId threadId = []
  | _ => True

/-! ## The pool -/

section Pool

variable {v w : Pool ThreadId WarmEngine} {engine : WarmEngine}

/-- An idle engine is its Thread's, and no `put` waits for another to be retired. -/
structure Tidy (v : Pool ThreadId WarmEngine) : Prop where
  key : ∀ threadId idle, v.idle.get threadId = some idle → idle.engine.threadId = threadId
  replacing : ∀ call ∈ v.calls, call.replacement = none

/-- None of the Thread's engines is idle or being retired. -/
structure Quiet (v : Pool ThreadId WarmEngine) (threadId : ThreadId) : Prop where
  idle : v.idle.get threadId = none
  retired : ∀ retirement ∈ v.retirements, retirement.phase = .running → retirement.engine.threadId ≠ threadId

/-- What a stretch of the pool's code keeps. -/
structure Stays (v w : Pool ThreadId WarmEngine) : Prop where
  tidy : Tidy w
  quiet : ∀ threadId, Quiet v threadId → Quiet w threadId

theorem tidy_initial : Tidy .initial where
  key := fun threadId idle h => by
    rw [Pool.initial, OrderedMap.get_empty] at h
    cases h
  replacing := fun _ h => absurd h List.not_mem_nil

theorem Tidy.refl (h : Tidy v) : Stays v v := ⟨h, fun _ hquiet => hquiet⟩

theorem Stays.trans {u : Pool ThreadId WarmEngine} (h : Stays v w) (h' : Stays w u) : Stays v u :=
  ⟨h'.tidy, fun threadId hquiet => h'.quiet threadId (h.quiet threadId hquiet)⟩

/-- Of a pool, `Tidy` and `Quiet` are about its idle engines, its retirements and its calls. -/
theorem Tidy.stays (h : Tidy v) (hidle : w.idle = v.idle) (hretirements : w.retirements = v.retirements)
    (hcalls : ∀ call ∈ w.calls, call ∈ v.calls ∨ call.replacement = none) : Stays v w := by
  refine ⟨⟨hidle ▸ h.key, fun call hcall => ?_⟩, fun threadId hquiet => ⟨hidle ▸ hquiet.idle, hretirements ▸ hquiet.retired⟩⟩
  rcases hcalls call hcall with hold | hnone
  · exact h.replacing call hold
  · exact hnone

theorem Tidy.remove (h : Tidy v) (thread : ThreadId) (idle : Idle WarmEngine) : Stays v (v.remove thread idle) where
  tidy := by
    refine ⟨fun threadId idle' hget => h.key threadId idle' ?_, h.replacing⟩
    rw [Pool.remove, OrderedMap.get_delete] at hget
    split at hget
    · cases hget
    · exact hget
  quiet := fun threadId hquiet => by
    refine ⟨?_, hquiet.retired⟩
    rw [Pool.remove, OrderedMap.get_delete, hquiet.idle, ite_self]

theorem Tidy.retireTracked (h : Tidy v) (engine : WarmEngine) : Tidy (v.retireTracked WarmEngine.threadId engine) :=
  ⟨h.key, h.replacing⟩

theorem Quiet.retireTracked (h : Quiet v threadId) (hne : engine.threadId ≠ threadId) :
    Quiet (v.retireTracked WarmEngine.threadId engine) threadId := by
  refine ⟨h.idle, fun retirement hmem hphase => ?_⟩
  rcases List.mem_append.mp hmem with hmem | hmem
  · exact h.retired retirement hmem hphase
  · rw [List.mem_singleton.mp hmem]
    exact hne

/-- An idle engine is retired. -/
theorem Tidy.retireIdle (h : Tidy v) {thread : ThreadId} {idle : Idle WarmEngine} (hget : v.idle.get thread = some idle) :
    Stays v ((v.remove thread idle).retireTracked WarmEngine.threadId idle.engine) where
  tidy := (h.remove thread idle).tidy.retireTracked _
  quiet := fun threadId hquiet => by
    refine ((h.remove thread idle).quiet threadId hquiet).retireTracked fun heq => ?_
    rw [h.key thread idle hget] at heq
    rw [heq, hquiet.idle] at hget
    cases hget

theorem Tidy.trim (h : Tidy v) : Stays v (v.trim WarmEngine.threadId maxIdle) := by
  unfold Pool.trim
  split
  · split
    · exact h.refl
    · rename_i thread idle hold
      have hget := OrderedMap.mem_entries.mp (Pool.oldest_mem hold)
      have hretire := h.retireIdle hget
      refine hretire.trans (hretire.tidy.stays rfl rfl fun call hcall => ?_)
      refine (List.mem_append.mp hcall).imp_right fun hlast => ?_
      rw [List.mem_singleton.mp hlast]
      rfl
  · exact h.refl

theorem Tidy.insert (h : Tidy v) (engine : WarmEngine) (now : Int) :
    Tidy (v.insert WarmEngine.threadId maxIdle engine now) ∧
    ∀ threadId, engine.threadId ≠ threadId → Quiet v threadId →
      Quiet (v.insert WarmEngine.threadId maxIdle engine now) threadId := by
  have hset : Tidy { v with
      timers := v.timers ++ [(v.nextTimer, engine)]
      nextTimer := v.nextTimer + 1
      idle := v.idle.set engine.threadId ⟨engine, v.nextTimer, now⟩ } := by
    refine ⟨fun threadId idle hget => ?_, h.replacing⟩
    rw [OrderedMap.get_set] at hget
    split at hget
    · rename_i hthread
      obtain rfl := Option.some.inj hget
      exact hthread
    · exact h.key threadId idle hget
  refine ⟨hset.trim.tidy, fun threadId hne hquiet => hset.trim.quiet threadId ⟨?_, hquiet.retired⟩⟩
  rw [OrderedMap.get_set, if_neg hne]
  exact hquiet.idle

/-- An engine is put whose Thread has none idle. -/
theorem Tidy.put (h : Tidy v) (engine : WarmEngine) (now : Int) (hidle : v.idle.get engine.threadId = none) :
    Tidy (v.put WarmEngine.threadId maxIdle engine now) ∧
    ∀ threadId, engine.threadId ≠ threadId → Quiet v threadId →
      Quiet (v.put WarmEngine.threadId maxIdle engine now) threadId := by
  unfold Pool.put
  dsimp only
  split
  · exact ⟨⟨h.key, h.replacing⟩, fun threadId hne hquiet => Quiet.retireTracked ⟨hquiet.idle, hquiet.retired⟩ hne⟩
  · rw [hidle]
    have hgiven : Tidy { v with
        given := if engine ∈ v.given then v.given else v.given ++ [engine]
        handedOut := v.handedOut.erase engine } := ⟨h.key, h.replacing⟩
    refine ⟨(hgiven.insert engine now).1, fun threadId hne hquiet => (hgiven.insert engine now).2 threadId hne ?_⟩
    exact ⟨hquiet.idle, hquiet.retired⟩

theorem Tidy.take (h : Tidy v) (thread : ThreadId) : Stays v (v.take thread) := by
  refine h.stays rfl rfl fun call hcall => (List.mem_append.mp hcall).imp_right fun hlast => ?_
  rw [List.mem_singleton.mp hlast]
  rfl

/-- A Thread that is handed its engine has none idle, and the engine is its own. -/
theorem Tidy.hand (h : Tidy v) (thread : ThreadId) : Stays v (v.hand WarmEngine.threadId thread) ∧
    (v.hand WarmEngine.threadId thread).idle.get thread = none ∧
    (v.hand WarmEngine.threadId thread).retirements = v.retirements ∧
    ∀ engine ∈ (v.hand WarmEngine.threadId thread).taken.getLast?.bind Taken.engine, engine.threadId = thread := by
  unfold Pool.hand
  cases hget : v.idle.get thread with
  | none =>
    refine ⟨h.stays rfl rfl fun _ hcall => .inl hcall, hget, rfl, fun engine hmem => ?_⟩
    rw [List.getLast?_append_of_ne_nil _ (List.cons_ne_nil _ _)] at hmem
    cases hmem
  | some idle =>
    have hremove := h.remove thread idle
    refine ⟨hremove.trans (hremove.tidy.stays rfl rfl fun _ hcall => .inl hcall), ?_, rfl, fun engine hmem => ?_⟩
    · exact (OrderedMap.get_delete _).trans (if_pos rfl)
    · rw [List.getLast?_append_of_ne_nil _ (List.cons_ne_nil _ _)] at hmem
      obtain rfl := Option.some.inj hmem
      exact h.key thread idle hget

theorem Tidy.evict (h : Tidy v) (predicate : WarmEngine → Bool) : Stays v (v.evict WarmEngine.threadId predicate) := by
  have hremove (entries : List (ThreadId × Idle WarmEngine)) {v : Pool ThreadId WarmEngine} (h : Tidy v) :
      Stays v (entries.foldl (fun v entry => v.remove entry.1 entry.2) v) := by
    induction entries generalizing v with
    | nil => exact h.refl
    | cons entry entries ih => exact (h.remove entry.1 entry.2).trans (ih (h.remove entry.1 entry.2).tidy)
  have hretire (entries : List (ThreadId × Idle WarmEngine)) {v : Pool ThreadId WarmEngine} (h : Tidy v) :
      Tidy (entries.foldl (fun v entry => v.retireTracked WarmEngine.threadId entry.2.engine) v) ∧
      ∀ threadId, (∀ entry ∈ entries, entry.2.engine.threadId ≠ threadId) → Quiet v threadId →
        Quiet (entries.foldl (fun v entry => v.retireTracked WarmEngine.threadId entry.2.engine) v) threadId := by
    induction entries generalizing v with
    | nil => exact ⟨h, fun _ _ hquiet => hquiet⟩
    | cons entry entries ih =>
      refine ⟨(ih (h.retireTracked _)).1, fun threadId hne hquiet => ?_⟩
      obtain ⟨hentry, hentries⟩ := List.forall_mem_cons.mp hne
      exact (ih (h.retireTracked _)).2 threadId hentries (hquiet.retireTracked hentry)
  unfold Pool.evict
  have hremoved := hremove (v.idle.entries.filter fun entry => predicate entry.2.engine) h
  refine ⟨(hretire _ hremoved.tidy).1, fun threadId hquiet => ?_⟩
  refine (hretire _ hremoved.tidy).2 threadId (fun entry hmem heq => ?_) (hremoved.quiet threadId hquiet)
  have hget : v.idle.get entry.1 = some entry.2 := OrderedMap.mem_entries.mp (List.mem_of_mem_filter hmem)
  rw [h.key entry.1 entry.2 hget] at heq
  rw [heq, hquiet.idle] at hget
  cases hget

theorem Tidy.expire (h : Tidy v) {i : Nat} (hstep : v.expire WarmEngine.threadId i = some w) : Stays v w := by
  obtain ⟨⟨n, engine⟩, -, rfl⟩ := Option.map_eq_some_iff.mp hstep
  dsimp only
  split
  · exact h.stays rfl rfl fun _ hcall => .inl hcall
  · rename_i hidle
    obtain ⟨idle, hget, rfl⟩ := Option.map_eq_some_iff.mp (not_not.mp hidle)
    have hretire := h.retireIdle hget
    exact hretire.trans (hretire.tidy.stays rfl rfl fun _ hcall => .inl hcall)

/-- A retirement goes on. -/
theorem Tidy.mark (h : Tidy v) {i : Nat} {retirement : Retirement WarmEngine} (hphase : retirement.phase ≠ .running)
    (retiring : ThreadId → Option Nat) :
    Stays v { v with retirements := v.retirements.set i retirement, retiring } where
  tidy := ⟨h.key, h.replacing⟩
  quiet := fun threadId hquiet => by
    refine ⟨hquiet.idle, fun r hmem hrunning => ?_⟩
    rcases List.mem_or_eq_of_mem_set hmem with hold | rfl
    · exact hquiet.retired r hold hrunning
    · exact absurd hrunning hphase

/-- A retirement that ends was under way. -/
theorem Tidy.settle (h : Tidy v) {i : Nat} (hstep : v.settle i = some w) : Stays v w ∧
    ∃ retirement, v.retirements[i]? = some retirement ∧ retirement.phase = .running := by
  unfold Pool.settle at hstep
  split at hstep
  · rename_i engine hget
    obtain rfl := Option.some.inj hstep
    exact ⟨h.mark (by simp) _, _, hget, rfl⟩
  · cases hstep

theorem Tidy.finish (h : Tidy v) {i : Nat} (hstep : v.finish WarmEngine.threadId i = some w) : Stays v w := by
  unfold Pool.finish at hstep
  split at hstep
  · obtain rfl := Option.some.inj hstep
    exact h.mark (by simp) _
  · cases hstep

theorem Tidy.eraseCall (h : Tidy v) (i : Nat) : Stays v { v with calls := v.calls.eraseIdx i } :=
  h.stays rfl rfl fun _ hcall => .inl (List.mem_of_mem_eraseIdx hcall)

theorem Tidy.resume (h : Tidy v) {i : Nat} {now : Int} (hstep : v.resume WarmEngine.threadId maxIdle i now = some w) :
    Stays v w ∧ ∀ thread retiring, v.calls[i]? = some (.taking thread retiring) →
      w.idle.get thread = none ∧ w.retirements = v.retirements ∧
      ∀ engine ∈ w.taken.getLast?.bind Taken.engine, engine.threadId = thread := by
  have herase := h.eraseCall i
  unfold Pool.resume at hstep
  dsimp only at hstep
  cases hcall : v.calls[i]? with
  | none =>
    rw [hcall] at hstep
    cases hstep
  | some call =>
    rw [hcall] at hstep
    cases call with
    | taking thread retiring =>
      obtain ⟨-, heq⟩ := Option.ite_none_right_eq_some.mp hstep
      obtain rfl := Option.some.inj heq
      obtain ⟨hstays, hidle, hretirements, hengine⟩ := herase.tidy.hand thread
      refine ⟨herase.trans hstays, fun thread' retiring' heq => ?_⟩
      obtain ⟨rfl, -⟩ := Call.taking.inj (Option.some.inj heq)
      exact ⟨hidle, hretirements, hengine⟩
    | replacing engine retiring =>
      have hnone := h.replacing _ (List.mem_of_getElem? hcall)
      cases hnone
    | trimming retiring =>
      obtain ⟨-, heq⟩ := Option.ite_none_right_eq_some.mp hstep
      obtain rfl := Option.some.inj heq
      exact ⟨herase.trans herase.tidy.trim, fun _ _ heq => by cases Option.some.inj heq⟩

end Pool

end Opensteer.UncontainedThreads
