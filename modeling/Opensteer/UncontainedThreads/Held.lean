import Opensteer.UncontainedThreads.Closed

/-!
# Every run

`Closed` is what each action keeps (`Closed.step`) where it meets the conditions, and so every run
(`isSome_iff_unproven`).
-/

namespace Opensteer.UncontainedThreads

open Chronicle WarmEnginePool

/-- The Run has been through the pool, and its engine has not been put there. -/
def Stage.outside : Stage → Bool
  | .taken | .retiring _ | .checked | .started => true
  | _ => false

/-- The engine that the Run waits to be retired. -/
def Stage.leaving : Stage → Option WarmEngine
  | .retiring engine | .stopping engine => some engine
  | _ => none

/-- The engines of a Thread's Run are the Thread's. -/
structure Owned (threadId : ThreadId) (run : Run) : Prop where
  warmEngine : ∀ engine ∈ run.warmEngine, engine.threadId = threadId
  leaving : ∀ engine ∈ run.stage.leaving, engine.threadId = threadId

structure Closed (s : State) : Prop where
  owned : ∀ threadId run, s.runs.get threadId = some run → Owned threadId run
  tidy : Tidy s.warm
  outside : ∀ threadId run, s.runs.get threadId = some run → run.stage.outside → Quiet s.warm threadId
  checked : ∀ threadId run, s.runs.get threadId = some run → run.stage = .checked →
    s.uncontainedThreads.get threadId = none
  held : ∀ threadId executionId, s.uncontainedThreads.get threadId = some executionId →
    Unproven s.log threadId executionId
  closed : ∀ threadId executionId, Unproven s.log threadId executionId →
    (s.uncontainedThreads.get threadId).isSome
  contained : Before Contained s.log

theorem closed_initial : Closed {} where
  owned := fun _ _ h => by
    rw [OrderedMap.get_empty] at h
    cases h
  tidy := tidy_initial
  outside := fun _ _ h => by
    rw [OrderedMap.get_empty] at h
    cases h
  checked := fun _ _ _ _ => rfl
  held := fun _ _ h => by
    rw [OrderedMap.get_empty] at h
    cases h
  closed := fun _ _ h => absurd h not_unproven_nil
  contained := Before.nil _

variable {s t : State} {threadId : ThreadId} {executionId : ExecutionId} {run : Run} {event : Event}
  {w : Pool ThreadId WarmEngine}

/-- A Run goes on in a stage that it can be in. -/
theorem Closed.setRun (h : Closed s) (howned : Owned threadId run) (houtside : run.stage.outside → Quiet s.warm threadId)
    (hchecked : run.stage = .checked → s.uncontainedThreads.get threadId = none) :
    Closed (UncontainedThreads.setRun s threadId run) := by
  have hcases {threadId' run'} (hget : (s.runs.set threadId run).get threadId' = some run') :
      threadId = threadId' ∧ run = run' ∨ s.runs.get threadId' = some run' := by
    rw [OrderedMap.get_set] at hget
    split at hget
    · exact .inl ⟨‹_›, Option.some.inj hget⟩
    · exact .inr hget
  refine ⟨fun threadId' run' hget => ?_, h.tidy, fun threadId' run' hget hstage => ?_,
    fun threadId' run' hget hstage => ?_, h.held, h.closed, h.contained⟩
  · obtain ⟨rfl, rfl⟩ | hget := hcases hget
    · exact howned
    · exact h.owned threadId' run' hget
  · obtain ⟨rfl, rfl⟩ | hget := hcases hget
    · exact houtside hstage
    · exact h.outside threadId' run' hget hstage
  · obtain ⟨rfl, rfl⟩ | hget := hcases hget
    · exact hchecked hstage
    · exact h.checked threadId' run' hget hstage

/-- A Run that is in none of the stages between the pool and its engine's end may be in any state of the pool. -/
theorem Closed.setRun_within (h : Closed s) (howned : Owned threadId run) (hstage : run.stage.outside = false) :
    Closed (UncontainedThreads.setRun s threadId run) := by
  refine h.setRun howned (fun houtside => ?_) fun hchecked => ?_
  · rw [hstage] at houtside
    cases houtside
  · rw [hchecked] at hstage
    cases hstage

theorem Closed.deleteRun (h : Closed s) : Closed { s with runs := s.runs.delete threadId } := by
  have hget {threadId' run'} (hget : (s.runs.delete threadId).get threadId' = some run') :
      s.runs.get threadId' = some run' := by
    rw [OrderedMap.get_delete] at hget
    split at hget
    · cases hget
    · exact hget
  exact ⟨fun _ _ h' => h.owned _ _ (hget h'), h.tidy, fun _ _ h' => h.outside _ _ (hget h'),
    fun _ _ h' => h.checked _ _ (hget h'), h.held, h.closed, h.contained⟩

theorem Closed.pool (h : Closed s) (htidy : Tidy w)
    (hquiet : ∀ threadId run, s.runs.get threadId = some run → run.stage.outside → Quiet w threadId) :
    Closed { s with warm := w } :=
  ⟨h.owned, htidy, hquiet, h.checked, h.held, h.closed, h.contained⟩

theorem Closed.stays (h : Closed s) (hstays : Stays s.warm w) : Closed { s with warm := w } :=
  h.pool hstays.tidy fun threadId run hget hstage => hstays.quiet threadId (h.outside threadId run hget hstage)

/-- A Thread is held that no Run has found contained. -/
theorem Closed.hold (h : Closed s) (hrun : ∀ run, s.runs.get threadId = some run → run.stage ≠ .checked) :
    Closed (holdUncontainedThread s threadId executionId) := by
  refine ⟨h.owned, h.tidy, h.outside, fun threadId' run' hget hstage => ?_, fun threadId' executionId' hget => ?_,
    fun threadId' executionId' hunproven => ?_, h.contained.snoc fun _ hevent => ?_⟩
  · refine (OrderedMap.get_set _).trans ?_
    rw [if_neg]
    · exact h.checked threadId' run' hget hstage
    · rintro rfl
      exact hrun run' hget hstage
  · rw [holdUncontainedThread, OrderedMap.get_set] at hget
    rw [holdUncontainedThread, unproven_snoc]
    split at hget
    · rename_i hthread
      exact .inl (by rw [hthread, Option.some.inj hget])
    · exact .inr ⟨h.held threadId' executionId' hget, by simp⟩
  · rw [holdUncontainedThread, unproven_snoc] at hunproven
    refine (congrArg Option.isSome (OrderedMap.get_set _)).trans ?_
    split
    · rfl
    · rename_i hthread
      obtain heq | ⟨hold, -⟩ := hunproven
      · exact absurd (Event.held.inj heq).1 hthread
      · exact h.closed threadId' executionId' hold
  · rcases hevent with heq | heq <;> cases heq

theorem Closed.retireWarmEngine (h : Closed s) {engine : WarmEngine}
    (hrun : ∀ run, s.runs.get engine.threadId = some run → run.stage ≠ .checked) (termination : TerminationProof) :
    Closed (UncontainedThreads.retireWarmEngine s engine termination) := by
  cases termination with
  | proven => exact h
  | unknown => exact h.hold hrun

/-- The log tells of a Run's admission, or of its engine's start, while the Thread is open. -/
theorem Closed.tell (h : Closed s) (hevent : event = .admitted threadId ∨ event = .started threadId)
    (hopen : s.uncontainedThreads.get threadId = none) : Closed { s with log := s.log ++ [event] } := by
  have hiff {threadId' executionId'} : Unproven (s.log ++ [event]) threadId' executionId' ↔
      Unproven s.log threadId' executionId' := by
    rw [unproven_snoc]
    rcases hevent with rfl | rfl <;> simp
  refine ⟨h.owned, h.tidy, h.outside, h.checked, fun threadId' executionId' hget => ?_,
    fun threadId' executionId' hunproven => ?_, h.contained.snoc fun threadId' hevent' executionId' hunproven => ?_⟩
  · exact hiff.mpr (h.held threadId' executionId' hget)
  · exact h.closed threadId' executionId' (hiff.mp hunproven)
  · have hthread : threadId' = threadId := by
      rcases hevent with rfl | rfl <;> rcases hevent' with heq | heq <;> cases heq <;> rfl
    have hsome := h.closed threadId' executionId' hunproven
    rw [hthread, hopen] at hsome
    cases hsome

/-- A retry ends. -/
theorem Closed.resolve (h : Closed s) {attempt : Retry} {termination : TerminationProof}
    (hlast : termination = .proven → s.uncontainedThreads.get attempt.threadId = some attempt.executionId →
      ∀ executionId ∈ unproven attempt.threadId s.log, executionId = attempt.executionId) :
    Closed (UncontainedThreads.resolve s attempt termination) := by
  cases termination with
  | unknown => exact h
  | proven =>
    have hget (threadId : ThreadId) : (UncontainedThreads.resolve s attempt .proven).uncontainedThreads.get threadId =
        if s.uncontainedThreads.get attempt.threadId = some attempt.executionId ∧ attempt.threadId = threadId then none
        else s.uncontainedThreads.get threadId := by
      by_cases hentry : s.uncontainedThreads.get attempt.threadId = some attempt.executionId
      · simp [UncontainedThreads.resolve, hentry]
      · simp [UncontainedThreads.resolve, hentry]
    refine ⟨h.owned, h.tidy, h.outside, fun threadId run hrun hstage => ?_, fun threadId executionId hentry => ?_,
      fun threadId executionId hunproven => ?_, h.contained.snoc fun _ hevent => ?_⟩
    · rw [hget, h.checked threadId run hrun hstage, ite_self]
    · rw [hget] at hentry
      split at hentry
      · cases hentry
      · rename_i hne
        refine unproven_snoc.mpr (.inr ⟨h.held threadId executionId hentry, fun heq => hne ?_⟩)
        obtain ⟨hthread, hexecution⟩ := Event.proven.inj heq
        exact ⟨by rw [hthread, hexecution, hentry], hthread⟩
    · obtain heq | ⟨hold, hne⟩ := unproven_snoc.mp hunproven
      · cases heq
      · rw [hget, if_neg]
        · exact h.closed threadId executionId hold
        · rintro ⟨hentry, rfl⟩
          exact hne (by rw [hlast rfl hentry executionId (mem_unproven.mpr hold)])
    · rcases hevent with heq | heq <;> cases heq

/-! ## Each action -/

theorem Closed.execute (h : Closed s) (admissible : Bool) :
    Closed (UncontainedThreads.execute s threadId executionId admissible) := by
  unfold UncontainedThreads.execute
  split
  · exact h
  · rename_i hopen
    simp only [Bool.or_eq_true, not_or, Option.isSome_iff_ne_none, not_not] at hopen
    have hadmitted : Closed (UncontainedThreads.setRun s threadId { containmentScope := executionId }) :=
      h.setRun_within ⟨fun _ h => (by cases h), fun _ h => by cases h⟩ rfl
    exact hadmitted.tell (.inl rfl) hopen.2

theorem Closed.finish (h : Closed s) (hget : s.runs.get threadId = some run) (keep : Bool) (now : Int) :
    Closed (UncontainedThreads.finish s threadId run keep now) := by
  have howned := h.owned threadId run hget
  unfold UncontainedThreads.finish
  split
  · exact h.setRun_within ⟨howned.warmEngine, nofun⟩ rfl
  · rename_i engine hengine
    have hthread : engine.threadId = threadId := howned.warmEngine engine hengine
    split
    · rename_i hkeep
      have hstarted := of_decide_eq_true (Bool.and_eq_true _ _ ▸ hkeep).2
      have hquiet := h.outside threadId run hget (by rw [hstarted]; rfl)
      have hput := h.tidy.put engine now (by rw [hthread]; exact hquiet.idle)
      have hrun : Closed (UncontainedThreads.setRun s threadId { run with stage := .keeping }) :=
        h.setRun_within ⟨howned.warmEngine, nofun⟩ rfl
      refine hrun.pool hput.1 fun threadId' run' hget' houtside => ?_
      refine hput.2 threadId' (fun heq => ?_) (hrun.outside threadId' run' hget' houtside)
      rw [← heq, hthread, UncontainedThreads.setRun, OrderedMap.get_set, if_pos rfl] at hget'
      rw [← Option.some.inj hget'] at houtside
      cases houtside
    · refine h.setRun_within ⟨nofun, fun engine' hmem => ?_⟩ rfl
      rw [← Option.some.inj hmem]
      exact hthread

theorem Closed.start (h : Closed s) (hget : s.runs.get threadId = some run) (hstage : run.stage = .checked)
    (warmScope : Option ExecutionId) : Closed (UncontainedThreads.start s threadId run warmScope) := by
  have howned := h.owned threadId run hget
  have hquiet := h.outside threadId run hget (by rw [hstage]; rfl)
  have hopen := h.checked threadId run hget hstage
  have hrun (run' : Run) (hengine : run'.warmEngine = run.warmEngine) (hstarted : run'.stage = .started) :
      Closed (UncontainedThreads.setRun s threadId run') := by
    refine h.setRun ⟨hengine ▸ howned.warmEngine, ?_⟩ (fun _ => hquiet) fun _ => hopen
    rw [hstarted]
    nofun
  unfold UncontainedThreads.start
  split
  · exact hrun _ rfl rfl
  · have hstarted := hrun { run with containmentScope := warmScope.getD run.containmentScope, stage := .started } rfl rfl
    exact hstarted.tell (.inr rfl) hopen

theorem Closed.release (h : Closed s) (hget : s.runs.get threadId = some run) (hstage : run.stage ≠ .checked)
    (termination : TerminationProof) : Closed (UncontainedThreads.release s threadId run termination) := by
  cases termination with
  | proven => exact h.deleteRun
  | unknown =>
    refine Closed.deleteRun (h.hold fun run' hget' => ?_)
    rw [hget] at hget'
    rw [← Option.some.inj hget']
    exact hstage

theorem Closed.resume (h : Closed s) {i : Nat} {now : Int} (hhanded : Handed s (.resume i now))
    (hstep : UncontainedThreads.resume s i now = some t) : Closed t := by
  obtain ⟨w, hw, hstep⟩ := Option.bind_eq_some_iff.mp hstep
  obtain ⟨hstays, htaking⟩ := h.tidy.resume hw
  have hpool := h.stays hstays
  split at hstep
  · rename_i thread retiring hcall
    obtain ⟨hidle, hretirements, hengine⟩ := htaking thread retiring hcall
    obtain ⟨run, hrun, rfl⟩ := Option.map_eq_some_iff.mp hstep
    have hunderWay : s.warm.underWay WarmEngine.threadId thread = [] := hhanded _ hcall thread rfl
    refine hpool.setRun ⟨hengine, nofun⟩ (fun _ => ⟨hidle, fun retirement hmem hphase heq => ?_⟩) nofun
    rw [hretirements] at hmem
    have hnone := List.filter_eq_nil_iff.mp (List.map_eq_nil_iff.mp hunderWay) retirement hmem
    exact hnone (decide_eq_true ⟨hphase, heq⟩)
  · obtain rfl := Option.some.inj hstep
    exact hpool

theorem Closed.step {action : Action} (h : Closed s) (hlast : LastProven s action) (hhanded : Handed s action)
    (hstep : runner.step s action = some t) : Closed t := by
  have hrunIn {threadId p run} (hrun : runIn s threadId p = some run) :
      s.runs.get threadId = some run ∧ p run.stage := Option.filter_eq_some_iff.mp hrun
  cases action with
  | execute threadId executionId admissible =>
    obtain rfl := Option.some.inj hstep
    exact h.execute admissible
  | take threadId =>
    obtain ⟨run, hrun, rfl⟩ := Option.map_eq_some_iff.mp hstep
    have howned := h.owned threadId run (hrunIn hrun).1
    have htaking : Closed (UncontainedThreads.setRun s threadId { run with stage := .taking }) :=
      h.setRun_within ⟨howned.warmEngine, fun _ h => by cases h⟩ rfl
    exact htaking.stays (h.tidy.take threadId)
  | retire threadId =>
    obtain ⟨run, hrun, hstep⟩ := Option.bind_eq_some_iff.mp hstep
    obtain ⟨engine, hengine, rfl⟩ := Option.map_eq_some_iff.mp hstep
    obtain ⟨hget, hstage⟩ := hrunIn hrun
    have htaken : run.stage = .taken := of_decide_eq_true hstage
    refine h.setRun ⟨fun _ h => (by cases h), fun engine' hmem => ?_⟩
      (fun _ => h.outside threadId run hget (by rw [htaken]; rfl)) fun h => by cases h
    rw [← Option.some.inj hmem]
    exact (h.owned threadId run hget).warmEngine engine hengine
  | retired threadId termination =>
    obtain ⟨run, hget, hstep⟩ := Option.bind_eq_some_iff.mp hstep
    split at hstep
    · rename_i engine hstage
      obtain rfl := Option.some.inj hstep
      have howned := h.owned threadId run hget
      have hthread : engine.threadId = threadId := howned.leaving engine (by rw [hstage]; rfl)
      have htaken : Closed (UncontainedThreads.setRun s threadId { run with stage := .taken }) :=
        h.setRun ⟨howned.warmEngine, fun _ h => by cases h⟩ (fun _ => h.outside threadId run hget (by rw [hstage]; rfl)) fun h => by cases h
      refine htaken.retireWarmEngine (fun run' hget' => ?_) termination
      rw [hthread, UncontainedThreads.setRun, OrderedMap.get_set, if_pos rfl] at hget'
      rw [← Option.some.inj hget']
      exact fun h => by cases h
    · cases hstep
  | check threadId =>
    obtain ⟨run, hrun, rfl⟩ := Option.map_eq_some_iff.mp hstep
    obtain ⟨hget, hstage⟩ := hrunIn hrun
    have htaken : run.stage = .taken := of_decide_eq_true hstage
    split
    · exact h.finish hget false 0
    · rename_i hopen
      exact h.setRun ⟨(h.owned threadId run hget).warmEngine, fun _ h => by cases h⟩
        (fun _ => h.outside threadId run hget (by rw [htaken]; rfl))
        fun _ => Option.not_isSome_iff_eq_none.mp hopen
  | start threadId warmScope =>
    obtain ⟨run, hrun, rfl⟩ := Option.map_eq_some_iff.mp hstep
    obtain ⟨hget, hstage⟩ := hrunIn hrun
    exact h.start hget (of_decide_eq_true hstage) warmScope
  | opened threadId =>
    obtain ⟨run, hrun, hstep⟩ := Option.bind_eq_some_iff.mp hstep
    obtain ⟨hget, hstage⟩ := hrunIn hrun
    have hstarted : run.stage = .started := of_decide_eq_true hstage
    split at hstep
    · cases hstep
    · obtain rfl := Option.some.inj hstep
      refine h.setRun ⟨fun engine hmem => ?_, (h.owned threadId run hget).leaving⟩
        (fun _ => h.outside threadId run hget (by rw [hstarted]; rfl)) fun hchecked => ?_
      · rw [← Option.some.inj hmem]
      · cases hstarted.symm.trans hchecked
  | finish threadId keep now =>
    obtain ⟨run, hrun, rfl⟩ := Option.map_eq_some_iff.mp hstep
    exact h.finish (hrunIn hrun).1 keep now
  | ended threadId termination =>
    obtain ⟨run, hget, hstep⟩ := Option.bind_eq_some_iff.mp hstep
    have howned := h.owned threadId run hget
    have hsettling (termination : TerminationProof) :
        Closed (UncontainedThreads.setRun s threadId { run with stage := .settling termination }) :=
      h.setRun_within ⟨howned.warmEngine, fun _ h => by cases h⟩ rfl
    split at hstep
    · obtain rfl := Option.some.inj hstep
      exact hsettling .proven
    · rename_i engine hstage
      obtain rfl := Option.some.inj hstep
      refine (hsettling .proven).retireWarmEngine (fun run' hget' => ?_) termination
      rw [howned.leaving engine (by rw [hstage]; rfl), UncontainedThreads.setRun, OrderedMap.get_set, if_pos rfl] at hget'
      rw [← Option.some.inj hget']
      exact fun h => by cases h
    · obtain rfl := Option.some.inj hstep
      exact hsettling termination
    · cases hstep
  | release threadId =>
    obtain ⟨run, hget, hstep⟩ := Option.bind_eq_some_iff.mp hstep
    split at hstep
    · rename_i termination hstage
      obtain rfl := Option.some.inj hstep
      exact h.release hget (by rw [hstage]; exact fun h => by cases h) termination
    · cases hstep
  | expire i =>
    obtain ⟨w, hw, rfl⟩ := Option.map_eq_some_iff.mp hstep
    exact h.stays (h.tidy.expire hw)
  | evict predicate =>
    obtain rfl := Option.some.inj hstep
    exact h.stays (h.tidy.evict predicate)
  | close =>
    obtain rfl := Option.some.inj hstep
    have hclosed := h.tidy.stays (w := { s.warm with closed := true }) rfl rfl fun _ hcall => .inl hcall
    exact h.stays (hclosed.trans (hclosed.tidy.evict _))
  | settle i termination =>
    obtain ⟨w, hw, hstep⟩ := Option.bind_eq_some_iff.mp hstep
    obtain ⟨retirement, hget, rfl⟩ := Option.map_eq_some_iff.mp hstep
    obtain ⟨hstays, retirement', hget', hrunning⟩ := h.tidy.settle hw
    obtain rfl := Option.some.inj (hget.symm.trans hget')
    refine (h.stays hstays).retireWarmEngine (fun run hrun hchecked => ?_) termination
    -- A Run that has found its Thread contained has none of its engines in the pool.
    have hquiet := h.outside _ run hrun (by rw [hchecked]; rfl)
    exact hquiet.retired retirement (List.mem_of_getElem? hget) hrunning rfl
  | finished i =>
    obtain ⟨w, hw, rfl⟩ := Option.map_eq_some_iff.mp hstep
    exact h.stays (h.tidy.finish hw)
  | resume i now => exact h.resume hhanded hstep
  | tick i =>
    obtain ⟨retry, -, rfl⟩ := Option.map_eq_some_iff.mp hstep
    exact ⟨h.owned, h.tidy, h.outside, h.checked, h.held, h.closed, h.contained⟩
  | resolve i termination =>
    obtain ⟨attempt, hget, rfl⟩ := Option.map_eq_some_iff.mp hstep
    have herase : Closed { s with attempts := s.attempts.eraseIdx i } :=
      ⟨h.owned, h.tidy, h.outside, h.checked, h.held, h.closed, h.contained⟩
    refine herase.resolve fun hproven => ?_
    subst hproven
    exact hlast attempt hget

/-! ## Runs -/

theorem closed_run {actions : List Action} (hrun : runner.run {} actions = some s)
    (hmeets : runner.Meets (fun s action => LastProven s action ∧ Handed s action) {} actions) : Closed s :=
  runner.run_invariant closed_initial (fun _ _ _ h hG hstep => h.step hG.1 hG.2 hstep) hmeets hrun

/-- A Thread is closed exactly while an execution that was held for it has not been proven gone, and until then no
execution of it is admitted and no engine is started for it. -/
theorem isSome_iff_unproven {actions : List Action} (hrun : runner.run {} actions = some s)
    (hmeets : runner.Meets (fun s action => LastProven s action ∧ Handed s action) {} actions) :
    (∀ threadId, (s.uncontainedThreads.get threadId).isSome ↔ ∃ executionId, Unproven s.log threadId executionId) ∧
    Before Contained s.log := by
  have h := closed_run hrun hmeets
  refine ⟨fun threadId => ⟨fun hsome => ?_, fun ⟨executionId, hunproven⟩ => ?_⟩, h.contained⟩
  · obtain ⟨executionId, hget⟩ := Option.isSome_iff_exists.mp hsome
    exact ⟨executionId, h.held threadId executionId hget⟩
  · exact h.closed threadId executionId hunproven

instance (s : State) : ∀ action, Decidable (LastProven s action)
  | .resolve i .proven => inferInstanceAs (Decidable (∀ attempt ∈ s.attempts[i]?, _ → _))
  | .resolve _ .unknown | .execute .. | .take .. | .retire .. | .retired .. | .check .. | .start .. | .opened .. |
    .finish .. | .ended .. | .release .. | .expire .. | .evict .. | .close | .settle .. | .finished .. | .resume .. |
    .tick .. => isTrue trivial

instance (s : State) : ∀ action, Decidable (Handed s action)
  | .resume i _ => inferInstanceAs (Decidable (∀ call ∈ s.warm.calls[i]?, ∀ threadId ∈ call.takes, _ = []))
  | .resolve .. | .execute .. | .take .. | .retire .. | .retired .. | .check .. | .start .. | .opened .. |
    .finish .. | .ended .. | .release .. | .expire .. | .evict .. | .close | .settle .. | .finished .. |
    .tick .. => isTrue trivial

/-- A Run whose engine is kept. -/
def kept : List Action :=
  [.execute "thread" "run-1" true, .take "thread", .resume 0 0, .check "thread", .start "thread" (some "warm"),
    .opened "thread", .finish "thread" true 0, .ended "thread" .proven, .release "thread"]

/-- The next Run takes that engine and cannot use it, and neither the engine nor the Run's own scope is proven gone. -/
def heldTwice : List Action :=
  kept ++ [Action.execute "thread" "run-2" true, .take "thread", .resume 0 0, .retire "thread", .retired "thread" .unknown,
    .check "thread", .ended "thread" .unknown, .release "thread"]

/-- A Run starts its engine once both have been proven gone, the one that was held first at first. -/
def reopened : List Action :=
  heldTwice ++ [Action.execute "thread" "refused" true, .tick 0, .resolve 0 .proven, .execute "thread" "refused" true,
    .tick 0, .resolve 0 .unknown, .tick 0, .resolve 0 .proven, .execute "thread" "run-3" true, .take "thread",
    .resume 0 0, .check "thread", .start "thread" none]

theorem isSome_iff_unproven_reopened : ∃ s, runner.run {} reopened = some s ∧
    s.log = [.admitted "thread", .started "thread", .admitted "thread", .held "thread" "warm", .held "thread" "run-2",
      .proven "thread" "warm", .proven "thread" "run-2", .admitted "thread", .started "thread"] ∧
    (∀ threadId, (s.uncontainedThreads.get threadId).isSome ↔ ∃ executionId, Unproven s.log threadId executionId) ∧
    Before Contained s.log := by
  obtain ⟨s, hrun, hlog⟩ := runner.exists_run_of_any (s := {}) (l := reopened) (P := fun s => s.log =
    [.admitted "thread", .started "thread", .admitted "thread", .held "thread" "warm", .held "thread" "run-2",
      .proven "thread" "warm", .proven "thread" "run-2", .admitted "thread", .started "thread"]) (by decide +kernel)
  exact ⟨s, hrun, hlog, isSome_iff_unproven hrun (by decide +kernel)⟩

/-- The one that was held last is proven gone first. -/
def overwritten : List Action :=
  heldTwice ++ [Action.tick 1, .resolve 0 .proven, .execute "thread" "run-3" true, .take "thread", .resume 0 0,
    .check "thread", .start "thread" none]

/-- The Thread is open, and an engine has been started for it, while the engine that was held first has not been proven
gone. -/
theorem not_contained_overwritten : ∃ s, runner.run {} overwritten = some s ∧
    runner.Meets Handed {} overwritten ∧ s.uncontainedThreads.get "thread" = none ∧
    Unproven s.log "thread" "warm" ∧ ¬Before Contained s.log := by
  obtain ⟨s, hrun, hopen, hlog⟩ := runner.exists_run_of_any (s := {}) (l := overwritten)
    (P := fun s => s.uncontainedThreads.get "thread" = none ∧ s.log =
      [.admitted "thread", .started "thread", .admitted "thread", .held "thread" "warm", .held "thread" "run-2",
        .proven "thread" "run-2", .admitted "thread", .started "thread"]) (by decide +kernel)
  refine ⟨s, hrun, by decide +kernel, hopen, by rw [hlog]; decide, fun hbefore => ?_⟩
  have hcontained := hbefore [.admitted "thread", .started "thread", .admitted "thread", .held "thread" "warm",
    .held "thread" "run-2", .proven "thread" "run-2"] (.admitted "thread") [.started "thread"] hlog
  exact hcontained "thread" (.inl rfl) "warm" (by decide)

end Opensteer.UncontainedThreads
