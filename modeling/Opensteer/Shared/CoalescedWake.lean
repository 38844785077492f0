import Mathlib.Data.List.Basic
import Opensteer.Framework.Machine

/-!
# Coalesced wakes

`CoalescedWake` with the passes it has started: each is in the call of `#run` until that
returns its promise, and then waited for, until its continuations have run. What its
surroundings choose is in the action: who wakes and stops when (also a pass itself, out of the
call that starts it), and how each pass ends. An option that was not given is called in vain.

`#running` is set when the call of `#run` has returned. So a pass that wakes before its first
`await` starts another beside it; where no pass does (`Outside`), the passes go one by one and
no wake is lost (`coalesces`).
-/

namespace Opensteer

namespace CoalescedWake

/-- Where a pass stands: in the call of `#run`, waited for, rejected with `.catch` still to come,
or with `.finally` still to come. -/
inductive Phase
  | calling
  | running
  | failed
  | over
  deriving DecidableEq, Repr

structure Pass where
  id : Nat
  phase : Phase
  deriving DecidableEq, Repr

/-- A call of one of the options. -/
inductive Call
  | run
  | onError
  | onSettled
  deriving DecidableEq, Repr

/-- `returns` is the call of `#run` made last returning its promise; `catches` and `ends` are the
continuations `.catch` and `.finally` of a pass. -/
inductive Action
  | wake
  | stop
  | returns
  | resolves (pass : Nat)
  | rejects (pass : Nat)
  | catches (pass : Nat)
  | ends (pass : Nat)
  deriving DecidableEq, Repr

end CoalescedWake

open CoalescedWake

/-- A `CoalescedWake`: the pass whose promise `#running` holds, the passes under way, the newest
first, the calls it has made, and what each call of `stop` waits for. -/
structure CoalescedWake where
  running : Option Nat := none
  requested : Bool := false
  passes : List Pass := []
  calls : List Call := []
  stops : List (Option Nat) := []
  deriving DecidableEq, Repr

namespace CoalescedWake

/-- How many passes were started. -/
def started (w : CoalescedWake) : Nat := w.calls.count .run

/-- How often `#onSettled` was called. -/
def settled (w : CoalescedWake) : Nat := w.calls.count .onSettled

def wake (w : CoalescedWake) : CoalescedWake :=
  if w.running.isSome then { w with requested := true }
  else { w with passes := ⟨w.started, .calling⟩ :: w.passes, calls := w.calls ++ [Call.run] }

def stop (w : CoalescedWake) : CoalescedWake :=
  { w with requested := false, stops := w.stops ++ [w.running] }

/-- The pass goes on to a phase. -/
def moved (w : CoalescedWake) (pass : Nat) (phase : Phase) : CoalescedWake :=
  { w with passes := w.passes.map fun p => if p.id = pass then { p with phase } else p }

/-- The call of `#run` has returned, and its promise is `#running`. -/
def returned (w : CoalescedWake) (pass : Nat) : CoalescedWake :=
  { w.moved pass .running with running := some pass }

def caught (w : CoalescedWake) (pass : Nat) : CoalescedWake :=
  { w.moved pass .over with calls := w.calls ++ [Call.onError] }

/-- The continuation `.finally` of a pass. -/
def ended (w : CoalescedWake) (pass : Nat) : CoalescedWake :=
  let w : CoalescedWake :=
    { w with running := none, passes := w.passes.filter fun p => p.id ≠ pass }
  if !w.requested then { w with calls := w.calls ++ [Call.onSettled] }
  else wake { w with requested := false }

/-- No call of `#run` is on the stack. -/
def AtRest (w : CoalescedWake) : Prop := ∀ p ∈ w.passes, p.phase ≠ .calling

instance (w : CoalescedWake) : Decidable w.AtRest :=
  inferInstanceAs (Decidable (∀ p ∈ w.passes, _))

/-- The pass is under way, in the phase. -/
def At (w : CoalescedWake) (pass : Nat) (phase : Phase) : Prop := ⟨pass, phase⟩ ∈ w.passes

instance (w : CoalescedWake) (pass : Nat) (phase : Phase) : Decidable (w.At pass phase) :=
  inferInstanceAs (Decidable (_ ∈ w.passes))

/-- Continuations run when no call of `#run` is on the stack. -/
def step (w : CoalescedWake) : Action → Option CoalescedWake
  | .wake => some w.wake
  | .stop => some w.stop
  | .returns => (w.passes.find? fun p => p.phase = .calling).map fun p => w.returned p.id
  | .resolves pass => if w.At pass .running then some (w.moved pass .over) else none
  | .rejects pass => if w.At pass .running then some (w.moved pass .failed) else none
  | .catches pass => if w.AtRest ∧ w.At pass .failed then some (w.caught pass) else none
  | .ends pass => if w.AtRest ∧ w.At pass .over then some (w.ended pass) else none

end CoalescedWake

def coalescedWake : Machine CoalescedWake CoalescedWake.Action := ⟨CoalescedWake.step⟩

namespace CoalescedWake

/-- Nothing is running and nothing is requested. -/
def Idle (w : CoalescedWake) : Prop := w.passes = [] ∧ w.requested = false

instance (w : CoalescedWake) : Decidable w.Idle := inferInstanceAs (Decidable (_ ∧ _))

/-- Whether one more pass is requested after the actions, none of which ends a pass: the last of
the wakes and stops tells. -/
def asks (requested : Bool) (as : List Action) : Bool :=
  as.foldl (fun requested a =>
    match a with
    | .wake => true
    | .stop => false
    | _ => requested) requested

/-- None of the actions is the end of a pass. -/
def Within (as : List Action) : Prop := ∀ pass, Action.ends pass ∉ as

/-- What is promised of the actions, if they can happen. The passes do not overlap. Where none is
under way, a wake starts one; a wake during a pass that no stop follows before that ends is
followed by a start. From anywhere in a pass to its end nothing starts, and with its end one pass
if one is requested by then, whatever the number of wakes. `onSettled` is called at the steps
after which nothing is running and nothing requested, where before something was. -/
structure Coalesces (as : List Action) : Prop where
  oneByOne : ∀ w, coalescedWake.run {} as = some w → w.passes.length ≤ 1
  starts : ∀ (before : List Action) u w, as = before ++ [Action.wake] → coalescedWake.run {} before = some u →
    coalescedWake.run {} as = some w → u.passes = [] → w.started = u.started + 1
  keeps : ∀ (before during : List Action) pass u w, as = before ++ Action.wake :: during ++ [Action.ends pass] →
    Within during → .stop ∉ during → coalescedWake.run {} before = some u →
    coalescedWake.run {} as = some w → u.started < w.started
  during : ∀ before during u w, as = before ++ during → Within during →
    coalescedWake.run {} before = some u → coalescedWake.run {} as = some w → u.passes ≠ [] →
    w.started = u.started
  oneMore : ∀ (before during : List Action) pass u w, as = before ++ during ++ [Action.ends pass] → Within during →
    coalescedWake.run {} before = some u → coalescedWake.run {} as = some w → u.passes ≠ [] →
    w.started = u.started + if asks u.requested during then 1 else 0
  settles : ∀ before a u w, as = before ++ [a] → coalescedWake.run {} before = some u →
    coalescedWake.run {} as = some w →
    w.settled = u.settled + if ¬u.Idle ∧ w.Idle then 1 else 0

/-- No pass wakes out of the call that starts it. -/
def Outside (w : CoalescedWake) (a : Action) : Prop := a = .wake → w.AtRest

instance (w : CoalescedWake) (a : Action) : Decidable (Outside w a) :=
  inferInstanceAs (Decidable (_ → _))

/-- Where a wake stands while no pass wakes out of the call that starts it: nothing is under way,
or a pass is in its call, or a pass is under way that `#running` holds. -/
inductive Stands (w : CoalescedWake) : Prop
  | idle (passes : w.passes = []) (running : w.running = none) (requested : w.requested = false)
  | calling (pass : Nat) (passes : w.passes = [⟨pass, .calling⟩]) (running : w.running = none)
    (requested : w.requested = false)
  | running (pass : Nat) (phase : Phase) (passes : w.passes = [⟨pass, phase⟩])
    (running : w.running = some pass) (phase_ne : phase ≠ .calling)

variable {w v u : CoalescedWake} {a : Action} {as during : List Action} {pass : Nat}

theorem Stands.running_eq_none (h : Stands w) (hp : w.passes = []) :
    w.running = none ∧ w.requested = false := by
  cases h with
  | idle _ hr hq => exact ⟨hr, hq⟩
  | calling n hp' => simp [hp] at hp'
  | running n phase hp' => simp [hp] at hp'

theorem Stands.length_le (h : Stands w) : w.passes.length ≤ 1 := by
  cases h with
  | idle hp => simp [hp]
  | calling n hp => simp [hp]
  | running n phase hp => simp [hp]

/-- At rest, a pass under way is the one that `#running` holds. -/
theorem Stands.running_isSome (h : Stands w) (hw : w.AtRest) (hp : w.passes ≠ []) :
    w.running.isSome := by
  cases h with
  | idle hp' => exact absurd hp' hp
  | calling n hp' => exact absurd rfl (hw ⟨n, .calling⟩ (by simp [hp']))
  | running n phase _ hr => simp [hr]

/-- A wake starts a pass where none is under way. -/
theorem Stands.wake_idle (h : Stands w) (hp : w.passes = []) :
    w.wake = { w with passes := [⟨w.started, .calling⟩], calls := w.calls ++ [Call.run] } := by
  simp [wake, (h.running_eq_none hp).1, hp]

theorem started_wake (hr : w.running = none) : w.wake.started = w.started + 1 := by
  simp [wake, hr, started]

theorem settled_wake : w.wake.settled = w.settled := by
  unfold wake
  split <;> simp [settled]

/-- The pass under way is the one at a phase, and it is in no call of `#run`. -/
theorem Stands.of_at {phase : Phase} (h : Stands w) (hat : w.At pass phase)
    (hphase : phase ≠ .calling) : w.passes = [⟨pass, phase⟩] ∧ w.running = some pass := by
  unfold At at hat
  cases h with
  | idle hp => simp [hp] at hat
  | calling n hp =>
    simp only [hp, List.mem_singleton, Pass.mk.injEq] at hat
    exact absurd hat.2 hphase
  | running n phase' hp hr =>
    simp only [hp, List.mem_singleton, Pass.mk.injEq] at hat
    exact ⟨by rw [hp, hat.1, hat.2], by rw [hr, hat.1]⟩

theorem Stands.moved (h : Stands w) {phase phase' : Phase} (hat : w.At pass phase)
    (hphase : phase ≠ .calling) (hphase' : phase' ≠ .calling) :
    Stands (w.moved pass phase') := by
  obtain ⟨hp, hr⟩ := h.of_at hat hphase
  exact .running pass phase' (by simp [CoalescedWake.moved, hp]) hr hphase'

/-- The end of a pass: one more where one is requested, and `onSettled` where none is. -/
theorem Stands.ended (h : Stands w) (hat : w.At pass .over) :
    w.ended pass = if w.requested then
      { w with running := none, requested := false, passes := [⟨w.started, .calling⟩],
               calls := w.calls ++ [Call.run] }
    else { w with running := none, passes := [], calls := w.calls ++ [Call.onSettled] } := by
  obtain ⟨hp, -⟩ := h.of_at hat (by decide)
  cases hq : w.requested with
  | true => simp [CoalescedWake.ended, hp, hq, wake, started]
  | false => simp [CoalescedWake.ended, hp, hq]

theorem Stands.returned (h : Stands w) {p : Pass}
    (hp : (w.passes.find? fun p => p.phase = .calling) = some p) : Stands (w.returned p.id) := by
  have hcalling := List.find?_some hp
  have hmem := List.mem_of_find?_eq_some hp
  simp only [decide_eq_true_eq] at hcalling
  cases h with
  | idle hp' => simp [hp'] at hmem
  | calling n hp' =>
    obtain rfl : p = ⟨n, .calling⟩ := by simpa [hp'] using hmem
    exact .running n .running (by simp [CoalescedWake.returned, CoalescedWake.moved, hp']) rfl (by decide)
  | running n phase hp' _ hphase =>
    obtain rfl : p = ⟨n, phase⟩ := by simpa [hp'] using hmem
    exact absurd hcalling hphase

theorem moved_ne_nil {phase : Phase} (hp : w.passes ≠ []) : (w.moved pass phase).passes ≠ [] := by
  simpa [moved] using hp

/-- What a step is that ends no pass, where a pass is under way. -/
theorem Stands.step_inside (h : Stands w) (hp : w.passes ≠ []) (ho : Outside w a)
    (ha : ∀ pass, a ≠ .ends pass) (hs : step w a = some v) :
    Stands v ∧ v.passes ≠ [] ∧ v.started = w.started ∧ v.settled = w.settled ∧
      v.requested = asks w.requested [a] := by
  cases a with
  | wake =>
    obtain rfl := Option.some.inj hs
    have hr := h.running_isSome (ho rfl) hp
    cases h with
    | idle hp' => exact absurd hp' hp
    | calling n _ hr' => simp [hr'] at hr
    | running n phase hp' hr' hphase =>
      simp only [CoalescedWake.wake, hr, if_true]
      exact ⟨.running n phase hp' hr' hphase, hp, rfl, rfl, rfl⟩
  | stop =>
    obtain rfl := Option.some.inj hs
    refine ⟨?_, hp, rfl, rfl, rfl⟩
    cases h with
    | idle hp' => exact absurd hp' hp
    | calling n hp' hr _ => exact .calling n hp' hr rfl
    | running n phase hp' hr hphase => exact .running n phase hp' hr hphase
  | returns =>
    obtain ⟨p, hfind, rfl⟩ := Option.map_eq_some_iff.mp hs
    exact ⟨h.returned hfind, moved_ne_nil hp, rfl, rfl, rfl⟩
  | resolves n =>
    obtain ⟨hat, hs⟩ := Option.ite_none_right_eq_some.mp hs
    obtain rfl := Option.some.inj hs
    exact ⟨h.moved hat (by decide) (by decide), moved_ne_nil hp, rfl, rfl, rfl⟩
  | rejects n =>
    obtain ⟨hat, hs⟩ := Option.ite_none_right_eq_some.mp hs
    obtain rfl := Option.some.inj hs
    exact ⟨h.moved hat (by decide) (by decide), moved_ne_nil hp, rfl, rfl, rfl⟩
  | catches n =>
    obtain ⟨⟨-, hat⟩, hs⟩ := Option.ite_none_right_eq_some.mp hs
    obtain rfl := Option.some.inj hs
    obtain ⟨hp', hr⟩ := h.of_at hat (by decide)
    have hstands : Stands (w.caught n) :=
      .running n .over (by simp [caught, CoalescedWake.moved, hp']) hr (by decide)
    exact ⟨hstands, moved_ne_nil hp, by simp [started, caught, CoalescedWake.moved],
      by simp [settled, caught, CoalescedWake.moved], rfl⟩
  | ends n => exact absurd rfl (ha n)

/-- What the end of a pass is. -/
theorem Stands.step_ends (h : Stands w) (hs : step w (.ends pass) = some v) :
    Stands v ∧ w.passes ≠ [] ∧ v.requested = false ∧
      v.started = w.started + (if w.requested then 1 else 0) ∧
      v.settled = w.settled + (if w.requested then 0 else 1) ∧
      (v.passes = [] ↔ w.requested = false) := by
  obtain ⟨⟨-, hat⟩, hs⟩ := Option.ite_none_right_eq_some.mp hs
  obtain rfl := Option.some.inj hs
  obtain ⟨hp, -⟩ := h.of_at hat (by decide)
  rw [h.ended hat]
  cases hq : w.requested with
  | true =>
    exact ⟨.calling w.started rfl rfl rfl, by simp [hp], rfl, by simp [started],
      by simp [settled], by simp⟩
  | false =>
    exact ⟨.idle rfl rfl rfl, by simp [hp], rfl, by simp [started], by simp [settled], by simp⟩

/-- What a step is where no pass is under way. -/
theorem Stands.step_idle (h : Stands w) (hp : w.passes = []) (hs : step w a = some v) :
    Stands v ∧ v.settled = w.settled ∧
      if a = .wake then v.passes ≠ [] ∧ v.started = w.started + 1 else v.started = w.started := by
  obtain ⟨hr, hq⟩ := h.running_eq_none hp
  cases a with
  | wake =>
    obtain rfl := Option.some.inj hs
    refine ⟨?_, settled_wake, by simp [h.wake_idle hp], started_wake hr⟩
    rw [h.wake_idle hp]
    exact .calling w.started rfl hr hq
  | stop =>
    obtain rfl := Option.some.inj hs
    exact ⟨.idle hp hr rfl, rfl, rfl⟩
  | returns => simp [step, hp] at hs
  | resolves n => simp [step, At, hp] at hs
  | rejects n => simp [step, At, hp] at hs
  | catches n => simp [step, At, hp] at hs
  | ends n => simp [step, At, hp] at hs

theorem Stands.next (h : Stands w) (ho : Outside w a) (hs : step w a = some v) : Stands v := by
  by_cases hp : w.passes = []
  · exact (h.step_idle hp hs).1
  · by_cases ha : ∃ pass, a = .ends pass
    · obtain ⟨pass, rfl⟩ := ha
      exact (h.step_ends hs).1
    · exact (h.step_inside hp ho (fun pass hpass => ha ⟨pass, hpass⟩) hs).1

/-- `onSettled` is called at the steps after which nothing is running and nothing requested, where
something was before. -/
theorem Stands.step_settled (h : Stands w) (ho : Outside w a) (hs : step w a = some v) :
    v.settled = w.settled + if ¬w.Idle ∧ v.Idle then 1 else 0 := by
  by_cases hp : w.passes = []
  · rw [if_neg fun hidle => hidle.1 ⟨hp, (h.running_eq_none hp).2⟩]
    exact (h.step_idle hp hs).2.1
  · have hw : ¬w.Idle := fun hidle => hp hidle.1
    by_cases ha : ∃ pass, a = .ends pass
    · obtain ⟨pass, rfl⟩ := ha
      obtain ⟨-, -, hrequested, -, hsettled, hpasses⟩ := h.step_ends hs
      rw [hsettled]
      cases hq : w.requested with
      | true => simp [Idle, hpasses, hq]
      | false => simp [Idle, hp, hpasses, hq, hrequested]
    · obtain ⟨-, hp', -, hsettled, -⟩ :=
        h.step_inside hp ho (fun pass hpass => ha ⟨pass, hpass⟩) hs
      rw [if_neg fun hidle => hp' hidle.2.1]
      exact hsettled

theorem run_stands (hmeets : coalescedWake.Meets Outside {} as)
    (hrun : coalescedWake.run {} as = some w) : Stands w :=
  coalescedWake.run_invariant (.idle rfl rfl rfl) (fun _ _ _ h ho hs => h.next ho hs) hmeets hrun

theorem asks_concat (requested : Bool) (as : List Action) (a : Action) :
    asks requested (as ++ [a]) = asks (asks requested as) [a] := by
  simp [asks]

/-- From anywhere in a pass, while none ends. -/
theorem Stands.run_inside (h : Stands u) (hp : u.passes ≠ [])
    (hmeets : coalescedWake.Meets Outside u during) (hwithin : Within during)
    (hrun : coalescedWake.run u during = some w) :
    Stands w ∧ w.passes ≠ [] ∧ w.started = u.started ∧ w.settled = u.settled ∧
      w.requested = asks u.requested during := by
  induction during using List.reverseRecOn generalizing w with
  | nil =>
    obtain rfl := Option.some.inj hrun
    exact ⟨h, hp, rfl, rfl, rfl⟩
  | append_singleton as a ih =>
    obtain ⟨v, hv, hs⟩ := (Machine.run_snoc_eq_some _).mp hrun
    obtain ⟨hmeets, ho⟩ := coalescedWake.meets_snoc hv hmeets
    obtain ⟨hstands, hp', hstarted, hsettled, hrequested⟩ :=
      ih hmeets (fun pass hmem => hwithin pass (by simp [hmem])) hv
    obtain ⟨hstands, hp', hstarted', hsettled', hrequested'⟩ :=
      hstands.step_inside hp' ho (fun pass hpass => hwithin pass (by simp [hpass])) hs
    exact ⟨hstands, hp', hstarted'.trans hstarted, hsettled'.trans hsettled, by
      rw [hrequested', hrequested, ← asks_concat]⟩

/-- From anywhere in a pass to its end. -/
theorem Stands.run_ends (h : Stands u) (hp : u.passes ≠ [])
    (hmeets : coalescedWake.Meets Outside u during) (hwithin : Within during)
    (hrun : coalescedWake.run u (during ++ [Action.ends pass]) = some w) :
    w.started = u.started + if asks u.requested during then 1 else 0 := by
  obtain ⟨v, hv, hs⟩ := (Machine.run_snoc_eq_some _).mp hrun
  obtain ⟨hstands, -, hstarted, -, hrequested⟩ := h.run_inside hp hmeets hwithin hv
  rw [(hstands.step_ends hs).2.2.2.1, hstarted, hrequested]

/-- Where no stop follows, what was requested stays so. -/
theorem asks_true (h : .stop ∉ as) : asks true as = true := by
  induction as with
  | nil => rfl
  | cons a as ih =>
    simp only [List.mem_cons, not_or] at h
    cases a with
    | stop => exact absurd rfl h.1
    | _ => exact ih h.2

/-- While no pass wakes out of the call that starts it, the passes go one by one, no wake is lost,
the wakes during a pass ask for one more, and `onSettled` tells when there is nothing more. -/
theorem coalesces (as : List Action) (hmeets : coalescedWake.Meets Outside {} as) :
    Coalesces as where
  oneByOne w hrun := (run_stands hmeets hrun).length_le
  starts before u w has hbefore hrun hp := by
    subst has
    obtain ⟨hmeets, -⟩ := coalescedWake.meets_snoc hbefore hmeets
    obtain ⟨v, hv, hs⟩ := (Machine.run_snoc_eq_some _).mp hrun
    obtain rfl : u = v := by simpa [hbefore] using hv
    have hstep := (run_stands hmeets hbefore).step_idle hp (show step u .wake = some w from hs)
    exact hstep.2.2.2
  keeps before during pass u w has hwithin hstop hbefore hrun := by
    subst has
    rw [List.append_assoc, List.cons_append] at hmeets hrun
    obtain ⟨hm, hm'⟩ := (coalescedWake.meets_append hbefore).mp hmeets
    obtain ⟨v, hv, hrun⟩ := (Machine.run_append_eq_some _).mp hrun
    obtain rfl : u = v := by simpa [hbefore] using hv
    obtain ⟨t, ht, hrun⟩ := (Machine.run_cons_eq_some _).mp hrun
    have hu := run_stands hm hbefore
    obtain ⟨ho, hm'⟩ := hm'
    obtain ⟨x, hx, -⟩ := (Machine.run_append_eq_some _).mp hrun
    have hm'' := ((coalescedWake.meets_append hx).mp (hm' t ht)).1
    by_cases hp : u.passes = []
    · obtain ⟨hstands, -, hp', hstarted⟩ := hu.step_idle hp (show step u .wake = some t from ht)
      have hw := hstands.run_ends hp' hm'' hwithin hrun
      omega
    · obtain ⟨hstands, hp', hstarted, -, hrequested⟩ :=
        hu.step_inside hp ho (fun _ => nofun) (show step u .wake = some t from ht)
      have hw := hstands.run_ends hp' hm'' hwithin hrun
      rw [hrequested, show asks u.requested [.wake] = true from rfl, asks_true hstop, if_pos rfl,
        hstarted] at hw
      omega
  during before during u w has hwithin hbefore hrun hp := by
    subst has
    obtain ⟨hm, hm'⟩ := (coalescedWake.meets_append hbefore).mp hmeets
    obtain ⟨v, hv, hrun⟩ := (Machine.run_append_eq_some _).mp hrun
    obtain rfl : u = v := by simpa [hbefore] using hv
    exact ((run_stands hm hbefore).run_inside hp hm' hwithin hrun).2.2.1
  oneMore before during pass u w has hwithin hbefore hrun hp := by
    subst has
    rw [List.append_assoc] at hmeets hrun
    obtain ⟨hm, hm'⟩ := (coalescedWake.meets_append hbefore).mp hmeets
    obtain ⟨v, hv, hrun⟩ := (Machine.run_append_eq_some _).mp hrun
    obtain rfl : u = v := by simpa [hbefore] using hv
    obtain ⟨x, hx, -⟩ := (Machine.run_append_eq_some _).mp hrun
    exact (run_stands hm hbefore).run_ends hp ((coalescedWake.meets_append hx).mp hm').1 hwithin hrun
  settles before a u w has hbefore hrun := by
    subst has
    obtain ⟨hm, ho⟩ := coalescedWake.meets_snoc hbefore hmeets
    obtain ⟨v, hv, hs⟩ := (Machine.run_snoc_eq_some _).mp hrun
    obtain rfl : u = v := by simpa [hbefore] using hv
    exact (run_stands hm hbefore).step_settled ho hs

/-- Three wakes during a pass that fails, and a wake after the next has ended. -/
theorem coalesces_burst :
    Coalesces [.wake, .returns, .wake, .wake, .wake, .rejects 0, .catches 0, .ends 0, .returns,
      .resolves 1, .ends 1, .wake] :=
  coalesces _ (by decide)

/-- A pass that wakes before its first `await` starts another, and both run. -/
theorem not_coalesces_calling : ¬Coalesces [.wake, .wake, .returns, .returns] := fun h =>
  absurd (h.oneByOne _ rfl) (by decide)

end CoalescedWake

end Opensteer
