import Opensteer.AgentPhone.GestureScheduler
import Opensteer.Framework.Chronicle
import Mathlib.Data.List.Nodup
import Mathlib.Data.List.Perm.Basic

/-!
# What a gesture scheduler keeps

`Sound` is what holds of the scheduler and its log whenever an action is run, and between the parts
of one: callbacks that were taken from the scheduler and not run yet stand beside it. A lemma for
each thing the scheduler does to its log, then one for each of its functions.
-/

namespace Opensteer.AgentPhone

open Chronicle (Since Before)

/-- The segments that were dispatched and not answered. -/
def unanswered (log : List Entry) : List Nat :=
  log.foldl (fun flying entry =>
    match entry with
    | .dispatched _ id _ => flying ++ [id]
    | .answered _ id _ _ => flying.filter fun other => other ≠ id
    | _ => flying) []

/-- The callbacks that have been run. -/
def callbacksRun (log : List Entry) : List Callback :=
  log.filterMap fun entry =>
    match entry with
    | .ran callback _ => some callback
    | _ => none

/-- A segment of the contact that does not continue it was answered ok. -/
def Released (contact : Nat) (log : List Entry) : Prop :=
  ∃ id segment, .answered contact id segment true ∈ log ∧ segment.continuing = false

/-- A cancel stroke was answered ok. -/
def Cancelled (log : List Entry) : Prop :=
  ∃ contact id segment, .answered contact id segment true ∈ log ∧ segment.cancel

/-- Until a cancel stroke is answered ok, what is dispatched is a cancel stroke. -/
def OnlyCancels (log : List Entry) : Prop :=
  Before (fun pre entry => ∀ contact id segment, entry = .dispatched contact id segment →
    segment.cancel ∨ Cancelled pre) log

/-- What a cancel names: any contact, or those of a producer and, if it gives one, a contact. -/
def Names (producer : Option Producer) (token : Option Nat) (producer' : Producer)
    (token' : Option Nat) : Prop :=
  producer = none ∨ producer = some producer' ∧ (token = none ∨ token' = token)

/-- No contact that the call names, begun before it, is active. -/
def Calm (log : List Entry) (callback : Callback) : Prop :=
  ∀ (pre : List Entry) producer token post, log = pre ++ Entry.called callback producer token :: post →
    ∀ contact producer' token', .began contact producer' token' ∈ pre →
      Names producer token producer' token' → .ended contact ∈ log

/-- No contact begun before a call is active. -/
def Quiet (log : List Entry) : Prop :=
  ∀ (pre : List Entry) callback producer token post, log = pre ++ Entry.called callback producer token :: post →
    ∀ contact producer' token', .began contact producer' token' ∈ pre → .ended contact ∈ log

/-- A contact of which a segment was dispatched is active until it is released. -/
def Held (active : Bool) (serial : Nat) (log : List Entry) : Prop :=
  Since (fun entry post => ∀ contact id segment, entry = .dispatched contact id segment →
    active ∧ serial = contact ∨ Released contact post) log

/-- After a segment that failed only cancel strokes are dispatched, while the scheduler cancels or
until one is answered ok. -/
def Failed (cancelling : Bool) (log : List Entry) : Prop :=
  Since (fun entry post => ∀ contact id segment, entry = .answered contact id segment false →
    OnlyCancels post ∧ (cancelling ∨ Cancelled post)) log

def Down.tokens (down : Down) : List Callback :=
  [⟨down.call, .done⟩, ⟨down.call, .started⟩, ⟨down.call, .contended⟩]

def Cleaner.tokens (cleaner : Cleaner) : List Callback :=
  match cleaner with
  | .given _ => [cleaner.callback]
  | .start down => cleaner.callback :: down.tokens

namespace Scheduler

/-- How often the scheduler may still run a callback. -/
def owed (s : Scheduler) (callback : Callback) : Nat :=
  s.completion.toList.count callback +
    (s.started.toList.map fun call => ⟨call, .started⟩).count callback +
    (s.cleaners.flatMap Cleaner.tokens).count callback + s.idleWaiters.count callback +
    (s.posted.flatMap fun down => (Cleaner.start down).tokens).count callback

/-- `extra` is what was taken from the scheduler and may still be run, and `promised` are those of
it that were accepted. -/
structure Sound (extra promised : List Callback) (s : Scheduler) : Prop where
  flight : unanswered s.log = if s.inFlight then [s.dispatchId] else []
  active : s.inFlight → s.active
  held : Held s.active s.serial s.log
  failed : Failed s.cancelling s.log
  began : ∀ contact producer token, .began contact producer token ∈ s.log →
    .ended contact ∈ s.log ∨
      s.active ∧ s.serial = contact ∧ s.producer = producer ∧ s.contact = token
  calm : Before (fun pre entry => ∀ callback answer, entry = .ran callback answer →
    Calm pre callback) s.log
  kinds : ∀ callback producer token, .called callback producer token ∈ s.log →
    callback.kind = .cancelled ∨ callback.kind = .idle ∨ callback.kind = .start
  before : ∀ callback producer token, .called callback producer token ∈ s.log →
    callback.call < s.calls
  once : ∀ callback,
    s.owed callback + extra.count callback + (callbacksRun s.log).count callback ≤ 1
  fresh : ∀ callback, s.calls ≤ callback.call →
    s.owed callback + extra.count callback + (callbacksRun s.log).count callback = 0
  accepted : ∀ callback, .accepted callback ∈ s.log → callback ∈ callbacksRun s.log ∨
    s.completion = some callback ∨ callback ∈ s.cleaners.map Cleaner.callback ++ promised

/-- Nothing waits for a contact while there is none. -/
def Settled (s : Scheduler) : Prop :=
  s.active = false → s.completion = none ∧ s.started = none ∧ s.cleaners = [] ∧
    s.cancelling = false

end Scheduler

section

variable {log : List Entry} {entry : Entry} {callback : Callback} {answer : Answer}
  {contact id : Nat} {segment : GestureSegment} {ok : Bool}

theorem unanswered_snoc : unanswered (log ++ [entry]) =
    match entry with
    | .dispatched _ id _ => unanswered log ++ [id]
    | .answered _ id _ _ => (unanswered log).filter fun other => other ≠ id
    | _ => unanswered log := by
  rw [unanswered, List.foldl_append]
  rfl

theorem callbacksRun_snoc : callbacksRun (log ++ [entry]) = callbacksRun log ++
    match entry with
    | .ran callback _ => [callback]
    | _ => [] := by
  rw [callbacksRun, List.filterMap_append]
  cases entry <;> rfl

theorem Released.snoc (h : Released contact log) : Released contact (log ++ [entry]) :=
  let ⟨id, segment, hin, hcontinuing⟩ := h
  ⟨id, segment, List.mem_append_left _ hin, hcontinuing⟩

theorem Cancelled.snoc (h : Cancelled log) : Cancelled (log ++ [entry]) :=
  let ⟨contact, id, segment, hin, hcancel⟩ := h
  ⟨contact, id, segment, List.mem_append_left _ hin, hcancel⟩

theorem onlyCancels_nil : OnlyCancels [] := Before.nil _

theorem OnlyCancels.snoc (h : OnlyCancels log)
    (hentry : ∀ contact id segment, entry = .dispatched contact id segment →
      segment.cancel ∨ Cancelled log) : OnlyCancels (log ++ [entry]) :=
  Before.snoc h hentry

theorem Quiet.calm (h : Quiet log) (callback : Callback) : Calm log callback :=
  fun pre producer token post hlog contact producer' token' hbegan _ =>
    h pre callback producer token post hlog contact producer' token' hbegan

theorem Quiet.snoc (h : Quiet log)
    (hentry : ∀ callback producer token, entry ≠ .called callback producer token) :
    Quiet (log ++ [entry]) := by
  intro pre callback producer token post hlog contact producer' token' hbegan
  obtain ⟨hcalled, -, -⟩ | ⟨post', -, hlog⟩ := Chronicle.snoc_cases hlog
  · exact absurd hcalled.symm (hentry callback producer token)
  · exact List.mem_append_left _
      (h pre callback producer token post' hlog contact producer' token' hbegan)

theorem Held.snoc {active active' : Bool} {serial serial' : Nat} (h : Held active serial log)
    (hkeep : active → active' ∧ serial' = serial)
    (hentry : ∀ contact id segment, entry = .dispatched contact id segment →
      active' ∧ serial' = contact) : Held active' serial' (log ++ [entry]) := by
  refine Since.snoc h (fun contact id segment he => .inl (hentry contact id segment he)) ?_
  intro e post hpost contact id segment he
  obtain ⟨hactive, hserial⟩ | hreleased := hpost contact id segment he
  · obtain ⟨hactive, hserial'⟩ := hkeep hactive
    exact .inl ⟨hactive, hserial'.trans hserial⟩
  · exact .inr hreleased.snoc

/-- Once a segment that does not continue the contact is answered ok, it is released. -/
theorem Held.released {active active' : Bool} {serial : Nat} (h : Held active serial log)
    (hcontinuing : segment.continuing = false) :
    Held active' serial (log ++ [Entry.answered serial id segment true]) := by
  refine Since.snoc h (fun _ _ _ he => Entry.noConfusion he) ?_
  intro e post hpost contact id' segment' he
  obtain ⟨-, rfl⟩ | hreleased := hpost contact id' segment' he
  · exact .inr ⟨id, segment, List.mem_append_right _ (List.mem_singleton_self _), hcontinuing⟩
  · exact .inr hreleased.snoc

theorem Failed.snoc {cancelling cancelling' : Bool} (h : Failed cancelling log)
    (hkeep : cancelling → cancelling')
    (hdispatched : ∀ contact id segment, entry = .dispatched contact id segment →
      segment.cancel ∨ Failed false log)
    (hanswered : ∀ contact id segment, entry = .answered contact id segment false → cancelling') :
    Failed cancelling' (log ++ [entry]) := by
  intro pre e post hlog contact id segment he
  obtain ⟨rfl, -, rfl⟩ | ⟨post', rfl, hold⟩ := Chronicle.snoc_cases hlog
  · exact ⟨onlyCancels_nil, .inl (hanswered contact id segment he)⟩
  · obtain ⟨honly, hcancelled⟩ := h pre e post' hold contact id segment he
    refine ⟨honly.snoc fun contact' id' segment' hentry => ?_,
      hcancelled.imp hkeep Cancelled.snoc⟩
    obtain hcancel | hnone := hdispatched contact' id' segment' hentry
    · exact .inl hcancel
    · exact .inr ((hnone pre e post' hold contact id segment he).2.resolve_left (by simp))

/-- Once a cancel stroke is answered ok, every failure is cleaned up. -/
theorem Failed.cancelled {cancelling cancelling' : Bool} (h : Failed cancelling log)
    (hcancel : segment.cancel) :
    Failed cancelling' (log ++ [Entry.answered contact id segment true]) := by
  refine Since.snoc h (fun _ _ _ he => by simp at he) ?_
  intro e post hpost contact' id' segment' he
  exact ⟨(hpost contact' id' segment' he).1.snoc (fun _ _ _ he => Entry.noConfusion he),
    .inr ⟨contact, id, segment, List.mem_append_right _ (List.mem_singleton_self _), hcancel⟩⟩

/-- A callback that no cancel and no idle was given may be run at any time. -/
theorem calm_of_kind (hkinds : ∀ callback producer token,
    .called callback producer token ∈ log →
      callback.kind = .cancelled ∨ callback.kind = .idle ∨ callback.kind = .start)
    (hkind : callback.kind ≠ .cancelled ∧ callback.kind ≠ .idle ∧ callback.kind ≠ .start) :
    Calm log callback := by
  intro pre producer token post hlog
  obtain h | h | h := hkinds callback producer token (by simp [hlog])
  · exact absurd h hkind.1
  · exact absurd h hkind.2.1
  · exact absurd h hkind.2.2

end

namespace Scheduler

variable {s s' : Scheduler} {turn : Turn} {extra promised : List Callback}
  {segment : GestureSegment}

/-- What `Sound` is about. -/
def view (s : Scheduler) :=
  (s.log, s.inFlight, s.active, s.dispatchId, s.serial, s.producer, s.contact, s.cancelling,
    s.completion, s.started, s.cleaners, s.idleWaiters, s.posted, s.calls)

theorem Sound.of_view (h : Sound extra promised s) (hview : s'.view = s.view) :
    Sound extra promised s' := by
  cases s
  cases s'
  simp only [view, Prod.mk.injEq] at hview
  obtain ⟨rfl, rfl, rfl, rfl, rfl, rfl, rfl, rfl, rfl, rfl, rfl, rfl, rfl, rfl⟩ := hview
  exact ⟨h.flight, h.active, h.held, h.failed, h.began, h.calm, h.kinds, h.before, h.once,
    h.fresh, h.accepted⟩

/-! ## What is written in the log -/

theorem Sound.begin (h : Sound extra promised s) (hactive : s.active = false) (turn : Turn)
    (point : DisplayPoint) (allowed : Nat) (time : Int) (producer : Producer)
    (contact : Option Nat) :
    Sound extra promised (s.begin turn point allowed time producer contact) where
  flight := unanswered_snoc.trans h.flight
  active _ := rfl
  held := h.held.snoc (by simp [hactive]) (by simp)
  failed := h.failed.snoc id (by simp) (by simp)
  began c p t hin := by
    obtain hin | hin := List.mem_append.mp hin
    · refine (h.began c p t hin).imp (List.mem_append_left _) fun hnow => ?_
      simp [hactive] at hnow
    · simp only [List.mem_singleton, Entry.began.injEq] at hin
      obtain ⟨rfl, rfl, rfl⟩ := hin
      exact .inr ⟨rfl, rfl, rfl, rfl⟩
  calm := h.calm.snoc (by simp)
  kinds c p t hin := h.kinds c p t (by simpa [Scheduler.begin, note] using hin)
  before c p t hin := h.before c p t (by simpa [Scheduler.begin, note] using hin)
  once c := by simpa [Scheduler.begin, note, callbacksRun_snoc, owed] using h.once c
  fresh c hc := by
    simpa [Scheduler.begin, note, callbacksRun_snoc, owed] using h.fresh c hc
  accepted c hin := by
    simpa [Scheduler.begin, note, callbacksRun_snoc] using
      h.accepted c (by simpa [Scheduler.begin, note] using hin)

theorem Sound.emit (h : Sound extra promised s) (hactive : s.active = true)
    (hflight : s.inFlight = false) (hcancel : segment.cancel ∨ Failed false s.log) :
    Sound extra promised (s.emit segment) where
  flight := by
    have hempty : unanswered s.log = [] := by simpa [hflight] using h.flight
    simp [Scheduler.emit, note, unanswered_snoc, hempty]
  active _ := hactive
  held := h.held.snoc (fun hs => ⟨hs, rfl⟩) fun contact id segment' he => by
    simp only [Entry.dispatched.injEq] at he
    exact ⟨hactive, he.1⟩
  failed := h.failed.snoc id (fun contact id segment' he => by
    simp only [Entry.dispatched.injEq] at he
    exact he.2.2 ▸ hcancel) (by simp)
  began c p t hin := by
    have hin : .began c p t ∈ s.log := by simpa [Scheduler.emit, note] using hin
    exact (h.began c p t hin).imp_left (List.mem_append_left _)
  calm := h.calm.snoc (by simp)
  kinds c p t hin := h.kinds c p t (by simpa [Scheduler.emit, note] using hin)
  before c p t hin := h.before c p t (by simpa [Scheduler.emit, note] using hin)
  once c := by simpa [Scheduler.emit, note, callbacksRun_snoc, owed] using h.once c
  fresh c hc := by simpa [Scheduler.emit, note, callbacksRun_snoc, owed] using h.fresh c hc
  accepted c hin := by
    simpa [Scheduler.emit, note, callbacksRun_snoc] using
      h.accepted c (by simpa [Scheduler.emit, note] using hin)

theorem Sound.emit_of (h : Sound extra promised s) (hactive : s.active = true)
    (hflight : s.inFlight = false) (hcancelling : s.cancelling = false)
    (segment : GestureSegment) : Sound extra promised (s.emit segment) := by
  refine h.emit hactive hflight (.inr ?_)
  have hfailed := h.failed
  rwa [hcancelling] at hfailed

/-- An answer ends the flight; if the segment failed the scheduler must cancel. -/
theorem Sound.land (h : Sound extra promised s) (hflight : s.inFlight = true) {ok : Bool}
    (success : Bool) {cancelling : Bool} (hkeep : s.cancelling = true → cancelling = true)
    (hfail : ok = false → cancelling = true) :
    Sound extra promised
      { s with
        inFlight := false, success, cancelling,
        log := s.log ++ [Entry.answered s.serial s.dispatchId segment ok] } where
  flight := by
    have hone : unanswered s.log = [s.dispatchId] := by simpa [hflight] using h.flight
    simp [unanswered_snoc, hone]
  active hs := by simp at hs
  held := h.held.snoc (fun hs => ⟨hs, rfl⟩) (by simp)
  failed := h.failed.snoc hkeep (by simp) fun contact id segment' he => by
    simp only [Entry.answered.injEq] at he
    exact hfail he.2.2.2
  began c p t hin := by
    have hin : .began c p t ∈ s.log := by simpa using hin
    exact (h.began c p t hin).imp_left (List.mem_append_left _)
  calm := h.calm.snoc (by simp)
  kinds c p t hin := h.kinds c p t (by simpa using hin)
  before c p t hin := h.before c p t (by simpa using hin)
  once c := by simpa [callbacksRun_snoc, owed] using h.once c
  fresh c hc := by simpa [callbacksRun_snoc, owed] using h.fresh c hc
  accepted c hin := by
    simpa [callbacksRun_snoc] using h.accepted c (by simpa using hin)

/-- A contact ends once it is released and what failed is cleaned up. -/
theorem Sound.ended (h : Sound extra promised s) (hflight : s.inFlight = false)
    (hheld : Held false s.serial s.log) (hfailed : Failed false s.log) :
    Sound extra promised
        { s with
          active := false, cancelling := false, contact := none,
          log := s.log ++ [Entry.ended s.serial] } ∧
      ∀ contact producer token, .began contact producer token ∈ s.log →
        .ended contact ∈ s.log ++ [Entry.ended s.serial] := by
  have hended : ∀ contact producer token, .began contact producer token ∈ s.log →
      .ended contact ∈ s.log ++ [Entry.ended s.serial] := by
    intro contact producer token hin
    obtain hended | ⟨-, rfl, -⟩ := h.began contact producer token hin
    · exact List.mem_append_left _ hended
    · exact List.mem_append_right _ (List.mem_singleton_self _)
  refine ⟨?_, hended⟩
  exact
    { flight := unanswered_snoc.trans h.flight
      active := fun hs => by simp [hflight] at hs
      held := hheld.snoc (by simp) (by simp)
      failed := hfailed.snoc id (by simp) (by simp)
      began := fun c p t hin => .inl (hended c p t (by simpa using hin))
      calm := h.calm.snoc (by simp)
      kinds := fun c p t hin => h.kinds c p t (by simpa using hin)
      before := fun c p t hin => h.before c p t (by simpa using hin)
      once := fun c => by simpa [callbacksRun_snoc, owed] using h.once c
      fresh := fun c hc => by simpa [callbacksRun_snoc, owed] using h.fresh c hc
      accepted := fun c hin => by
        simpa [callbacksRun_snoc] using h.accepted c (by simpa using hin) }

/-- A callback that was taken is run. -/
theorem Sound.run {callback : Callback} {answer : Answer} {promised' : List Callback}
    (h : Sound (callback :: extra) promised s) (hcalm : Calm s.log callback)
    (hpromised : ∀ c ∈ promised, c = callback ∨ c ∈ promised') :
    Sound extra promised' (s.run callback answer) where
  flight := unanswered_snoc.trans h.flight
  active := h.active
  held := h.held.snoc (fun hs => ⟨hs, rfl⟩) (by simp)
  failed := h.failed.snoc id (by simp) (by simp)
  began c p t hin := by
    have hin : .began c p t ∈ s.log := by simpa [Scheduler.run, note] using hin
    exact (h.began c p t hin).imp_left (List.mem_append_left _)
  calm := h.calm.snoc fun c a he => by
    simp only [Entry.ran.injEq] at he
    exact he.1 ▸ hcalm
  kinds c p t hin := h.kinds c p t (by simpa [Scheduler.run, note] using hin)
  before c p t hin := h.before c p t (by simpa [Scheduler.run, note] using hin)
  once c := by
    have honce := h.once c
    simp only [List.count_cons] at honce
    simp only [Scheduler.run, note, callbacksRun_snoc, List.count_append, List.count_singleton]
    have howed : owed { s with log := s.log ++ [Entry.ran callback answer] } c = s.owed c := rfl
    omega
  fresh c hc := by
    have hfresh := h.fresh c hc
    simp only [List.count_cons] at hfresh
    simp only [Scheduler.run, note, callbacksRun_snoc, List.count_append, List.count_singleton]
    have howed : owed { s with log := s.log ++ [Entry.ran callback answer] } c = s.owed c := rfl
    omega
  accepted c hin := by
    have hin : .accepted c ∈ s.log := by simpa [Scheduler.run, note] using hin
    simp only [Scheduler.run, note, callbacksRun_snoc, List.mem_append, List.mem_singleton]
    obtain hran | hcompletion | hrest := h.accepted c hin
    · exact .inl (.inl hran)
    · exact .inr (.inl hcompletion)
    · obtain hcleaner | hpromise := List.mem_append.mp hrest
      · exact .inr (.inr (.inl hcleaner))
      · exact (hpromised c hpromise).elim (fun hc => .inl (.inr hc)) fun hc =>
          .inr (.inr (.inr hc))

theorem Sound.called (h : Sound extra promised s) (callback : Callback)
    (hkind : callback.kind = .cancelled ∨ callback.kind = .idle ∨ callback.kind = .start)
    (hcall : callback.call < s.calls) (producer : Option Producer) (token : Option Nat) :
    Sound extra promised (s.note (.called callback producer token)) where
  flight := unanswered_snoc.trans h.flight
  active := h.active
  held := h.held.snoc (fun hs => ⟨hs, rfl⟩) (by simp)
  failed := h.failed.snoc id (by simp) (by simp)
  began c p t hin := by
    have hin : .began c p t ∈ s.log := by simpa [note] using hin
    exact (h.began c p t hin).imp_left (List.mem_append_left _)
  calm := h.calm.snoc (by simp)
  kinds c p t hin := by
    obtain hin | hin := List.mem_append.mp hin
    · exact h.kinds c p t hin
    · simp only [List.mem_singleton, Entry.called.injEq] at hin
      exact hin.1 ▸ hkind
  before c p t hin := by
    obtain hin | hin := List.mem_append.mp hin
    · exact h.before c p t hin
    · simp only [List.mem_singleton, Entry.called.injEq] at hin
      exact hin.1 ▸ hcall
  once c := by simpa [note, callbacksRun_snoc, owed] using h.once c
  fresh c hc := by simpa [note, callbacksRun_snoc, owed] using h.fresh c hc
  accepted c hin := by
    simpa [note, callbacksRun_snoc] using h.accepted c (by simpa [note] using hin)

theorem Sound.accept (h : Sound extra promised s) {callback : Callback}
    (hkept : s.completion = some callback ∨ callback ∈ s.cleaners.map Cleaner.callback) :
    Sound extra promised (s.note (.accepted callback)) where
  flight := unanswered_snoc.trans h.flight
  active := h.active
  held := h.held.snoc (fun hs => ⟨hs, rfl⟩) (by simp)
  failed := h.failed.snoc id (by simp) (by simp)
  began c p t hin := by
    have hin : .began c p t ∈ s.log := by simpa [note] using hin
    exact (h.began c p t hin).imp_left (List.mem_append_left _)
  calm := h.calm.snoc (by simp)
  kinds c p t hin := h.kinds c p t (by simpa [note] using hin)
  before c p t hin := h.before c p t (by simpa [note] using hin)
  once c := by simpa [note, callbacksRun_snoc, owed] using h.once c
  fresh c hc := by simpa [note, callbacksRun_snoc, owed] using h.fresh c hc
  accepted c hin := by
    simp only [note, callbacksRun_snoc, List.append_nil]
    obtain hin | hin := List.mem_append.mp hin
    · exact h.accepted c hin
    · obtain rfl := Entry.accepted.inj (List.mem_singleton.mp hin)
      exact .inr (hkept.imp_right (List.mem_append_left _))

theorem Sound.cancelling (h : Sound extra promised s) :
    Sound extra promised { s with cancelling := true } :=
  { h with
    failed := h.failed.mono fun _ _ hpost contact id segment he =>
      ⟨(hpost contact id segment he).1, .inl rfl⟩
    flight := h.flight }

/-! ## Where callbacks are kept -/

/-- What does not say which callbacks are kept. -/
def core (s : Scheduler) :=
  (s.log, s.inFlight, s.active, s.dispatchId, s.serial, s.producer, s.contact, s.cancelling,
    s.calls)

/-- Callbacks that are kept in another place, or dropped. -/
theorem Sound.keep (h : Sound extra promised s) {extra' promised' : List Callback}
    (hcore : s'.core = s.core)
    (howed : ∀ c, s'.owed c + extra'.count c ≤ s.owed c + extra.count c)
    (haccepted : ∀ c, s.completion = some c ∨ c ∈ s.cleaners.map Cleaner.callback ++ promised →
      s'.completion = some c ∨ c ∈ s'.cleaners.map Cleaner.callback ++ promised') :
    Sound extra' promised' s' := by
  simp only [core, Prod.mk.injEq] at hcore
  obtain ⟨hlog, hflight, hactive, hid, hserial, hproducer, hcontact, hcancelling, hcalls⟩ := hcore
  refine ⟨?_, ?_, ?_, ?_, ?_, ?_, ?_, ?_, fun c => ?_, fun c hc => ?_, fun c hin => ?_⟩
  · rw [hlog, hflight, hid]
    exact h.flight
  · rw [hflight, hactive]
    exact h.active
  · rw [hlog, hactive, hserial]
    exact h.held
  · rw [hlog, hcancelling]
    exact h.failed
  · rw [hlog, hactive, hserial, hproducer, hcontact]
    exact h.began
  · rw [hlog]
    exact h.calm
  · rw [hlog]
    exact h.kinds
  · rw [hlog, hcalls]
    exact h.before
  · rw [hlog]
    have honce := h.once c
    have := howed c
    omega
  · rw [hlog]
    have hfresh := h.fresh c (hcalls ▸ hc)
    have := howed c
    omega
  · rw [hlog] at hin ⊢
    exact (h.accepted c hin).imp_right (haccepted c)

/-- A call brings its callbacks. -/
theorem Sound.call (h : Sound [] [] s) (tokens : List Callback) (hnodup : tokens.Nodup)
    (htokens : ∀ c ∈ tokens, c.call = s.calls) :
    Sound tokens [] { s with calls := s.calls + 1 } :=
  { h with
    flight := h.flight
    before := fun c p t hin => Nat.lt_succ_of_lt (h.before c p t hin)
    once := fun c => by
      show s.owed c + tokens.count c + (callbacksRun s.log).count c ≤ 1
      have honce := h.once c
      rw [List.count_nil] at honce
      have hcount := List.nodup_iff_count_le_one.mp hnodup c
      by_cases hc : c ∈ tokens
      · have hfresh := h.fresh c (Nat.le_of_eq (htokens c hc).symm)
        rw [List.count_nil] at hfresh
        omega
      · rw [List.count_eq_zero_of_not_mem hc]
        omega
    fresh := fun c hc => by
      show s.owed c + tokens.count c + (callbacksRun s.log).count c = 0
      have hlt : s.calls < c.call := hc
      have hin : c ∉ tokens := fun hin => by
        have := htokens c hin
        omega
      have hfresh := h.fresh c (Nat.le_of_lt hlt)
      rw [List.count_nil] at hfresh
      rw [List.count_eq_zero_of_not_mem hin]
      omega }

/-! ## The functions of the scheduler -/

theorem flush_sound (h : Sound extra promised s) (hactive : s.active = true)
    (hflight : s.inFlight = false) (hfailed : Failed false s.log) :
    Sound extra promised s.flush ∧ (Settled s → Settled s.flush) := by
  unfold flush
  dsimp only
  split
  · refine ⟨Sound.emit ?_ hactive hflight (.inr hfailed), id⟩
    exact h.of_view rfl
  · exact ⟨h.of_view rfl, id⟩

theorem pump_sound (h : Sound extra promised s) :
    Sound extra promised (s.pump turn) ∧ (Settled s → Settled (s.pump turn)) := by
  unfold pump
  split
  · exact ⟨h, id⟩
  · rename_i hpump
    simp only [Bool.or_eq_true, Bool.not_eq_true', not_or, Bool.not_eq_true,
      Bool.not_eq_false] at hpump
    obtain ⟨hflight, hactive⟩ := hpump
    have hasked : ∃ s', s' = (if s.authorized turn then s
        else { s with success := false, cancelling := true, moves := [] }) ∧
        Sound extra promised s' ∧ s'.active = true ∧ s'.inFlight = false ∧
        (Settled s → Settled s') := by
      refine ⟨_, rfl, ?_⟩
      split
      · exact ⟨h, hactive, hflight, id⟩
      · refine ⟨h.cancelling.of_view rfl, hactive, hflight, fun _ hidle => ?_⟩
        rw [show s.active = false from hidle] at hactive
        cases hactive
    obtain ⟨s', hs', hsound, hactive, hflight, hsettled⟩ := hasked
    dsimp only
    rw [← hs']
    split
    · exact ⟨hsound.emit hactive hflight (.inl rfl), hsettled⟩
    · rename_i hcancelling
      have hfailed : Failed false s'.log := by
        have hfailed := hsound.failed
        rwa [Bool.not_eq_true _ |>.mp hcancelling] at hfailed
      split
      · obtain ⟨hflush, hkept⟩ := flush_sound hsound hactive hflight hfailed
        exact ⟨hflush, hkept ∘ hsettled⟩
      · exact ⟨hsound, hsettled⟩

/-- What the parts of an action keep: what was taken is less, and what was quiet is. -/
structure Kept (extra promised : List Callback) (s s' : Scheduler) : Prop where
  sound : Sound extra promised s'
  settled : Settled s'
  quiet : Quiet s.log → Quiet s'.log

theorem Kept.trans {s'' : Scheduler} {extra' promised' : List Callback}
    (h : Kept extra promised s s') (h' : Kept extra' promised' s' s'') :
    Kept extra' promised' s s'' :=
  ⟨h'.sound, h'.settled, h'.quiet ∘ h.quiet⟩

theorem Kept.congr {s₁ : Scheduler} (h : Kept extra promised s₁ s') (hlog : s₁.log = s.log) :
    Kept extra promised s s' :=
  ⟨h.sound, h.settled, fun hquiet => h.quiet (hlog ▸ hquiet)⟩

theorem quiet_run {callback : Callback} {answer : Answer} (h : Quiet s.log) :
    Quiet (s.run callback answer).log :=
  h.snoc (by simp)

theorem quiet_emit (h : Quiet s.log) : Quiet (s.emit segment).log := h.snoc (by simp)

theorem quiet_begin (h : Quiet s.log) {point : DisplayPoint} {allowed : Nat} {time : Int}
    {producer : Producer} {contact : Option Nat} :
    Quiet (s.begin turn point allowed time producer contact).log :=
  h.snoc (by simp)

theorem Sound.calm_of_kind (h : Sound extra promised s) {callback : Callback}
    (hkind : callback.kind ≠ .cancelled ∧ callback.kind ≠ .idle ∧ callback.kind ≠ .start) :
    Calm s.log callback :=
  AgentPhone.calm_of_kind h.kinds hkind

/-- The press that was taken is refused, or becomes the contact. -/
theorem start_kept {down : Down} (h : Sound (down.tokens ++ extra) promised s)
    (hsettled : Settled s) : Kept extra promised s (s.start turn down) := by
  unfold start
  split
  · -- The press is refused: it is told so, and dropped.
    have hcontended : ∃ s', s' = (if down.producer = .agent && s.producer = .person && s.active then
        s.run ⟨down.call, .contended⟩ .unit else s) ∧
        Kept ([⟨down.call, .started⟩, ⟨down.call, .done⟩] ++ extra) promised s s' := by
      refine ⟨_, rfl, ?_⟩
      split
      · refine ⟨Sound.run (Sound.keep h rfl ?_ fun c hc => hc) (h.calm_of_kind (by simp))
          fun c hc => .inr hc, hsettled, quiet_run⟩
        intro c
        simp only [Down.tokens, List.cons_append, List.nil_append, List.count_cons]
        omega
      · refine ⟨Sound.keep h rfl ?_ fun c hc => hc, hsettled, id⟩
        intro c
        simp only [Down.tokens, List.cons_append, List.nil_append, List.count_cons]
        omega
    obtain ⟨s', hs', hkept⟩ := hcontended
    dsimp only
    rw [← hs']
    have hstarted : Sound ([⟨down.call, .done⟩] ++ extra) promised
        (s'.run ⟨down.call, .started⟩ (.bool false)) :=
      hkept.sound.run (hkept.sound.calm_of_kind (by simp)) fun c hc => .inr hc
    exact ⟨hstarted.run (hstarted.calm_of_kind (by simp)) fun c hc => .inr hc, hkept.settled,
      fun hquiet => quiet_run (quiet_run (hkept.quiet hquiet))⟩
  · rename_i hfree
    simp only [Bool.or_eq_true, Bool.not_eq_true', not_or, Bool.not_eq_true] at hfree
    obtain ⟨⟨hactive, hflight⟩, -⟩ := hfree
    obtain ⟨hcompletion, hstarted, hcleaners, hcancelling⟩ := hsettled hactive
    have hbegun := h.begin hactive turn down.point down.call (down.time.getD turn.now)
      down.producer down.contact
    have htaken : Sound extra promised
        { s.begin turn down.point down.call (down.time.getD turn.now) down.producer
            down.contact with
          completion := some ⟨down.call, .done⟩, started := some down.call } := by
      refine hbegun.keep rfl (fun c => ?_) fun c hc => ?_
      · simp only [owed, Scheduler.begin, note, hcompletion, hstarted, Option.toList_none,
          Option.toList_some, List.map_nil, List.map_cons, List.count_nil, Down.tokens,
          List.cons_append, List.nil_append, List.count_cons]
        omega
      · refine .inr (hc.resolve_left ?_)
        simp [Scheduler.begin, note, hcompletion]
    have haccepted := htaken.accept (.inl rfl)
    have hsent := haccepted.emit_of rfl hflight hcancelling
      ⟨[down.point], by simp, max down.holdMs 1, true, true, false, 0⟩
    have hquiet : Quiet s.log → Quiet (s.log ++
        [Entry.began (s.serial + 1) down.producer down.contact] ++ [Entry.accepted ⟨down.call, .done⟩] ++ [Entry.dispatched (s.serial + 1) (s.dispatchId + 1)
          ⟨[down.point], by simp, max down.holdMs 1, true, true, false, 0⟩]) := fun hquiet =>
      ((hquiet.snoc (by simp)).snoc (by simp)).snoc (by simp)
    dsimp only
    split
    · exact ⟨hsent.of_view rfl, fun h => Bool.noConfusion h, hquiet⟩
    · exact ⟨hsent, fun h => Bool.noConfusion h, hquiet⟩

theorem runCleaner_kept (turn : Turn) {cleaner : Cleaner}
    (h : Sound (cleaner.tokens ++ extra) (cleaner.callback :: promised) s) (hsettled : Settled s)
    (hcalm : Calm s.log cleaner.callback) :
    Kept extra promised s (s.runCleaner turn cleaner) := by
  have hpromised : ∀ c ∈ cleaner.callback :: promised, c = cleaner.callback ∨ c ∈ promised :=
    fun c hc => List.mem_cons.mp hc
  unfold runCleaner
  cases cleaner with
  | given call => exact ⟨Sound.run h hcalm hpromised, hsettled, quiet_run⟩
  | start down =>
    have hrun : Kept (down.tokens ++ extra) promised s (s.run ⟨down.call, .start⟩ .unit) :=
      ⟨Sound.run h hcalm hpromised, hsettled, quiet_run⟩
    exact hrun.trans (start_kept hrun.sound hrun.settled)

theorem foldl_runCleaner_kept (turn : Turn) {cleaners : List Cleaner}
    (h : Sound (cleaners.flatMap Cleaner.tokens) (cleaners.map Cleaner.callback) s)
    (hsettled : Settled s) (hquiet : Quiet s.log) :
    Kept [] [] s (cleaners.foldl (fun s cleaner => s.runCleaner turn cleaner) s) := by
  induction cleaners generalizing s with
  | nil => exact ⟨h, hsettled, id⟩
  | cons cleaner cleaners ih =>
    have hone := runCleaner_kept turn (by simpa using h) hsettled
      (hquiet.calm cleaner.callback)
    exact hone.trans (ih hone.sound hone.settled (hone.quiet hquiet))

/-- `onStarted` is run, if it was not. -/
theorem runStarted_spec (h : Sound [] [] s) (ok : Bool) :
    Sound [] [] (s.runStarted ok) ∧ (Quiet s.log → Quiet (s.runStarted ok).log) ∧
      (s.runStarted ok).started = none ∧
      (s.runStarted ok).completion = s.completion ∧ (s.runStarted ok).cleaners = s.cleaners ∧
      (s.runStarted ok).active = s.active ∧ (s.runStarted ok).cancelling = s.cancelling := by
  unfold runStarted
  split
  · rename_i call hcall
    have htaken : Sound [⟨call, .started⟩] [] { s with started := none } := by
      refine h.keep rfl (fun c => ?_) fun c hc => hc
      simp only [owed, hcall, Option.toList_some, Option.toList_none, List.map_cons, List.map_nil,
        List.count_cons, List.count_nil]
      omega
    exact ⟨htaken.run (htaken.calm_of_kind (by simp)) (by simp), quiet_run, rfl, rfl, rfl, rfl,
      rfl⟩
  · rename_i hcall
    exact ⟨h, id, hcall, rfl, rfl, rfl, rfl⟩

theorem runCompletion_spec (h : Sound [] [] s) (hquiet : Quiet s.log) :
    Sound [] [] s.runCompletion ∧ Quiet s.runCompletion.log ∧ s.runCompletion.completion = none ∧
      s.runCompletion.started = s.started ∧ s.runCompletion.cleaners = s.cleaners ∧
      s.runCompletion.active = s.active ∧ s.runCompletion.cancelling = s.cancelling := by
  unfold runCompletion
  split
  · rename_i callback hcallback
    have htaken : Sound [callback] [callback] { s with completion := none } := by
      refine h.keep rfl (fun c => ?_) fun c hc => ?_
      · simp only [owed, hcallback, Option.toList_some, Option.toList_none, List.count_cons,
          List.count_nil]
        omega
      · rw [hcallback] at hc
        obtain hc | hc := hc
        · obtain rfl := Option.some.inj hc
          exact .inr (by simp)
        · exact .inr (List.mem_append_left _ (by simpa using hc))
    exact ⟨htaken.run (hquiet.calm callback) (by simp), quiet_run hquiet, rfl, rfl, rfl, rfl, rfl⟩
  · rename_i hcallback
    exact ⟨h, hquiet, hcallback, rfl, rfl, rfl, rfl⟩

theorem runCleaners_kept (turn : Turn) (h : Sound [] [] s) (hquiet : Quiet s.log)
    (hcompletion : s.completion = none) (hstarted : s.started = none)
    (hcancelling : s.cancelling = false) : Kept [] [] s (s.runCleaners turn) := by
  have htaken : Sound (s.cleaners.flatMap Cleaner.tokens) (s.cleaners.map Cleaner.callback)
      { s with cleaners := [] } := by
    refine h.keep rfl (fun c => ?_) fun c hc => ?_
    · simp only [owed, List.flatMap_nil, List.count_nil]
      omega
    · simpa using hc
  have hkept := foldl_runCleaner_kept turn htaken
    (fun _ => ⟨hcompletion, hstarted, rfl, hcancelling⟩) hquiet
  exact ⟨hkept.sound, hkept.settled, hkept.quiet⟩

theorem swipe_kept (h : Sound extra promised s) (hactive : s.active = false)
    (hflight : s.inFlight = false) (hcancelling : s.cancelling = false) {waiting : Scroll}
    {target : DisplayPoint} : Kept extra promised s (s.swipe turn waiting target) := by
  have hbegun := h.begin hactive turn waiting.source waiting.allowed turn.now .person none
  refine ⟨?_, fun hidle => Bool.noConfusion hidle, fun hquiet => ?_⟩
  · have hready : Sound extra promised
        { s.begin turn waiting.source waiting.allowed turn.now .person none with
          ending := some (target, turn.now + 300), releaseHold := 100 } := hbegun.of_view rfl
    have hsent := hready.emit_of rfl hflight hcancelling
      ⟨[waiting.source, target], by simp, 300, true, true, false, 0⟩
    exact hsent.of_view rfl
  · exact quiet_emit (s := { s.begin turn waiting.source waiting.allowed turn.now .person none with
      ending := _, releaseHold := 100 }) (quiet_begin hquiet)

/-- Where no swipe throws, what a scroll starts is kept. -/
theorem startScroll_kept (h : Sound [] [] s) (hsettled : Settled s)
    (hscroll : s.startScroll turn = some s') : Kept [] [] s s' := by
  unfold startScroll at hscroll
  split at hscroll
  · obtain rfl := Option.some.inj hscroll
    exact ⟨h, hsettled, id⟩
  · rename_i hfree
    simp only [Bool.or_eq_true, not_or, Bool.not_eq_true] at hfree
    obtain ⟨hactive, hflight⟩ := hfree
    obtain ⟨-, -, -, hcancelling⟩ := hsettled hactive
    split at hscroll
    · obtain rfl := Option.some.inj hscroll
      exact ⟨h, hsettled, id⟩
    · rename_i waiting hwaiting
      split at hscroll
      · obtain rfl := Option.some.inj hscroll
        exact ⟨h.of_view rfl, hsettled, id⟩
      · split at hscroll
        · obtain rfl := Option.some.inj hscroll
          exact ⟨h, hsettled, id⟩
        · simp only [Option.bind_eq_some_iff, Option.map_eq_some_iff] at hscroll
          obtain ⟨x, -, y, -, rfl⟩ := hscroll
          generalize (if (⟨x, y⟩ : DisplayPoint) = waiting.source then none else some _ :
            Option Scroll) = scroll
          have hs : Sound [] [] { s with scroll } := h.of_view rfl
          split
          · exact ⟨hs, hsettled, id⟩
          · exact (swipe_kept hs hactive hflight hcancelling).congr rfl

theorem foldl_run_kept {callbacks : List Callback} (h : Sound callbacks [] s)
    (hsettled : Settled s) (hquiet : Quiet s.log) :
    Kept [] [] s (callbacks.foldl (fun s callback => s.run callback .unit) s) := by
  induction callbacks generalizing s with
  | nil => exact ⟨h, hsettled, id⟩
  | cons callback callbacks ih =>
    have hone : Kept callbacks [] s (s.run callback .unit) :=
      ⟨h.run (hquiet.calm callback) (by simp), hsettled, quiet_run⟩
    exact hone.trans (ih hone.sound hone.settled (hone.quiet hquiet))

theorem runIdle_kept (h : Sound [] [] s) (hsettled : Settled s) (hquiet : Quiet s.log) :
    Kept [] [] s s.runIdle := by
  have htaken : Sound s.idleWaiters [] { s with idleWaiters := [] } := by
    refine h.keep rfl (fun c => ?_) fun c hc => hc
    simp only [owed, List.count_nil]
    omega
  exact (foldl_run_kept htaken hsettled hquiet).congr rfl

/-- Once all contacts are ended, no contact begun before a call is active. -/
theorem quiet_of_ended {log : List Entry}
    (hended : ∀ contact producer token, .began contact producer token ∈ log →
      .ended contact ∈ log) : Quiet log := by
  intro pre callback producer token post hlog contact producer' token' hbegan
  exact hended contact producer' token' (by simp [hlog, hbegan])

/-- A contact that is released and cleaned up may be finished. -/
theorem finish_kept (h : Sound [] [] s) (hflight : s.inFlight = false)
    (hheld : Held false s.serial s.log) (hfailed : Failed false s.log) :
    Sound [] [] (s.finish turn) ∧ Settled (s.finish turn) := by
  obtain ⟨hended, hall⟩ := h.ended hflight hheld hfailed
  have hended : Sound [] [] ({ s with
      active := false, moves := [], ending := none, cancelling := false, flushScheduled := false,
      releaseHold := 0, agentSegments := [], contact := none }.note (.ended s.serial)) :=
    hended.of_view rfl
  have hquiet : Quiet (s.log ++ [Entry.ended s.serial]) := by
    refine quiet_of_ended fun contact producer token hbegan => hall contact producer token ?_
    simpa using hbegan
  unfold finish
  dsimp only
  obtain ⟨hstarted, hstartedQuiet, hstarted', hcompletion, -, -, hcancelling⟩ :=
    runStarted_spec hended false
  obtain ⟨hcompleted, hcompletedQuiet, hcompletion', hstarted'', -, -, hcancelling'⟩ :=
    runCompletion_spec hstarted (hstartedQuiet hquiet)
  have hcleaned := runCleaners_kept turn hcompleted hcompletedQuiet hcompletion'
    (hstarted''.trans hstarted') (hcancelling'.trans hcancelling)
  split
  · exact ⟨hcleaned.sound, hcleaned.settled⟩
  · rename_i s' hscroll
    have hscrolled := startScroll_kept hcleaned.sound hcleaned.settled hscroll
    split
    · exact ⟨hscrolled.sound, hscrolled.settled⟩
    · have hidle := runIdle_kept hscrolled.sound hscrolled.settled
        (hscrolled.quiet (hcleaned.quiet hcompletedQuiet))
      exact ⟨hidle.sound, hidle.settled⟩

theorem settled_of_active (hactive : s.active = true) : Settled s :=
  fun hidle => by simp [hactive] at hidle

theorem pump_active (hactive : s.active = true) (h : Sound extra promised s) :
    Sound extra promised (s.pump turn) ∧ Settled (s.pump turn) :=
  ⟨(pump_sound h).1, (pump_sound h).2 (settled_of_active hactive)⟩

theorem answer_sound (h : Sound [] [] s) (hsettled : Settled s) {id : Nat} {ok : Bool} :
    Sound [] [] (s.answer turn id segment ok) ∧ Settled (s.answer turn id segment ok) := by
  unfold answer
  split
  · exact ⟨h, hsettled⟩
  rename_i hanswer
  simp only [Bool.or_eq_true, Bool.not_eq_true', decide_eq_true_eq, not_or, Bool.not_eq_false,
    ne_eq, not_not] at hanswer
  obtain ⟨hflight, rfl⟩ := hanswer
  have hactive := h.active hflight
  cases ok with
  | false =>
    have hlanded : Sound [] [] { s with
        inFlight := false, success := false, cancelling := true, moves := [], ending := none,
        agentSegments := [], log := s.log ++ [Entry.answered s.serial s.dispatchId segment false] } :=
      (h.land hflight false (fun _ => rfl) fun _ => rfl).of_view rfl
    simp only [Bool.not_false, if_true, note, Bool.and_false]
    split
    · exact ⟨hlanded.of_view rfl, settled_of_active hactive⟩
    · exact pump_active hactive hlanded
  | true =>
    have hlanded : Sound [] [] { s with
        inFlight := false, success := s.success,
        log := s.log ++ [Entry.answered s.serial s.dispatchId segment true] } :=
      (h.land hflight s.success (fun hs => hs) fun hok => Bool.noConfusion hok).of_view rfl
    simp only [Bool.not_true, Bool.false_eq_true, if_false, note, Bool.and_true]
    split
    · exact pump_active hactive hlanded
    rename_i hclean
    split
    · rename_i hcontinuing
      have hheld : Held false s.serial
          (s.log ++ [Entry.answered s.serial s.dispatchId segment true]) :=
        h.held.released (by simpa using hcontinuing)
      -- Either nothing failed that is not cleaned up, or this is the stroke that cleans it up.
      have hfailed : Failed false (s.log ++ [Entry.answered s.serial s.dispatchId segment true]) := by
        cases hcancel : segment.cancel with
        | true => exact h.failed.cancelled hcancel
        | false =>
          have hcancelling : s.cancelling = false := by simpa [hcancel] using hclean
          have hfailed := h.failed
          rw [hcancelling] at hfailed
          exact hfailed.snoc id (by simp) (by simp)
      split
      · exact finish_kept hlanded rfl hheld hfailed
      · rename_i next rest hagent
        split
        · refine ⟨Sound.emit ?_ hactive rfl (.inr hfailed), settled_of_active hactive⟩
          exact hlanded.of_view rfl
        · refine finish_kept ?_ rfl hheld hfailed
          exact hlanded.of_view rfl
    · split
      · obtain ⟨hstarted, -, -, -, -, hactive', -⟩ := runStarted_spec hlanded true
        exact pump_active (hactive'.trans hactive) hstarted
      · exact pump_active hactive hlanded

/-! ## The calls -/

theorem down_sound {down : Down} (h : Sound (Cleaner.start down).tokens [] s)
    (hsettled : Settled s) : Sound [] [] (s.down turn down) ∧ Settled (s.down turn down) := by
  unfold Scheduler.down
  split
  · refine ⟨h.keep rfl (fun c => ?_) fun c hc => hc, hsettled⟩
    simp only [owed, List.flatMap_append, List.flatMap_cons, List.flatMap_nil, List.append_nil,
      List.count_append, List.count_nil]
    omega
  · have htaken : Sound (down.tokens ++ []) [] s := by
      refine h.keep rfl (fun c => ?_) fun c hc => hc
      simp only [Cleaner.tokens, List.append_nil, List.count_cons]
      omega
    exact ⟨(start_kept htaken hsettled).sound, (start_kept htaken hsettled).settled⟩

theorem agent_sound {call : Nat} {segments : List GestureSegment} {admitted : Bool}
    (h : Sound [⟨call, .result⟩, ⟨call, .refused⟩] [] s) (hsettled : Settled s) :
    Sound [] [] (s.agent turn call segments admitted) ∧
      Settled (s.agent turn call segments admitted) := by
  have hresult : Sound [⟨call, .result⟩] [] s := by
    refine h.keep rfl (fun c => ?_) fun c hc => hc
    simp only [List.count_cons]
    omega
  have hrefused : Sound [⟨call, .refused⟩] [] s := by
    refine h.keep rfl (fun c => ?_) fun c hc => hc
    simp only [List.count_cons]
    omega
  unfold Scheduler.agent
  split
  · exact ⟨hresult.run (hresult.calm_of_kind (by simp)) (by simp), hsettled⟩
  rename_i hfree
  simp only [Bool.or_eq_true, not_or, Bool.not_eq_true] at hfree
  obtain ⟨hactive, hflight⟩ := hfree
  obtain ⟨hcompletion, -, -, hcancelling⟩ := hsettled hactive
  split
  · exact ⟨hrefused.run (hrefused.calm_of_kind (by simp)) (by simp), hsettled⟩
  · split
    · refine ⟨h.keep rfl (fun c => ?_) fun c hc => hc, hsettled⟩
      simp only [List.count_nil]
      omega
    · rename_i first rest
      have hbegun := hresult.begin hactive turn (first.points.head first.nonempty) call
        turn.now .agent none
      have htaken : Sound [] []
          { s.begin turn (first.points.head first.nonempty) call turn.now .agent none with
            completion := some ⟨call, .result⟩ } := by
        refine hbegun.keep rfl (fun c => ?_) fun c hc => ?_
        · simp only [owed, Scheduler.begin, note, hcompletion, Option.toList_none,
            Option.toList_some, List.count_cons, List.count_nil]
          omega
        · refine .inr (hc.resolve_left ?_)
          simp [Scheduler.begin, note, hcompletion]
      have haccepted := htaken.accept (.inl rfl)
      have hready := (@Scheduler.Sound.of_view _ { (Scheduler.note _ _) with
        agentSegments := s.agentSegments ++ rest }) haccepted rfl
      exact ⟨hready.emit_of rfl hflight hcancelling first, settled_of_active rfl⟩

theorem Sound.quiet (h : Sound extra promised s) (hactive : s.active = false) : Quiet s.log :=
  quiet_of_ended fun contact producer token hbegan =>
    (h.began contact producer token hbegan).resolve_right fun hnow => by simp [hactive] at hnow

theorem idle_sound {call : Nat} (h : Sound [⟨call, .idle⟩] [] s) (hsettled : Settled s)
    (hcall : call < s.calls) : Sound [] [] (s.idle call) ∧ Settled (s.idle call) := by
  have hcalled := h.called ⟨call, .idle⟩ (.inr (.inl rfl)) hcall none none
  unfold idle
  dsimp only
  split
  · rename_i hfree
    have hactive : s.active = false := by
      simp only [note, Bool.and_eq_true, Bool.not_eq_true'] at hfree
      exact hfree.1
    exact ⟨hcalled.run ((hcalled.quiet hactive).calm _) (by simp), hsettled⟩
  · refine ⟨hcalled.keep rfl (fun c => ?_) fun c hc => hc, hsettled⟩
    simp only [owed, note, List.count_append, List.count_nil]
    omega

/-- A cancel that names another contact than the one that is active may be answered at once. -/
theorem calm_of_other {producer : Option Producer} {token : Option Nat} {callback : Callback}
    (h : Sound extra promised s) (hnew : ∀ p t, .called callback p t ∉ s.log)
    (hproducer : producer.isSome)
    (hother : s.active = false ∨ some s.producer ≠ producer ∨
      token.isSome ∧ s.contact ≠ token) :
    Calm (s.log ++ [Entry.called callback producer token]) callback := by
  intro pre producer' token' post hlog contact p t hbegan hnames
  obtain ⟨hcalled, rfl, -⟩ | ⟨post', -, hold⟩ := Chronicle.snoc_cases hlog
  · simp only [Entry.called.injEq, true_and] at hcalled
    obtain ⟨rfl, rfl⟩ := hcalled
    refine List.mem_append_left _ ((h.began contact p t hbegan).resolve_right ?_)
    rintro ⟨hactive, -, rfl, rfl⟩
    obtain hnone | ⟨hnamed, htoken⟩ := hnames
    · simp [hnone] at hproducer
    · obtain hidle | hother | ⟨hsome, hne⟩ := hother
      · simp [hidle] at hactive
      · exact hother hnamed.symm
      · obtain hnone | htoken := htoken
        · simp [hnone] at hsome
        · exact hne htoken
  · exact absurd (by simp [hold]) (hnew producer' token')

theorem cancel_sound {producer : Option Producer} {token : Option Nat} {done : Cleaner}
    (h : Sound done.tokens [] s) (hsettled : Settled s) (hcall : done.callback.call < s.calls)
    (hnew : producer.isSome → ∀ p t, .called done.callback p t ∉ s.log) :
    Sound [] [] (s.cancel turn producer token done) ∧
      Settled (s.cancel turn producer token done) := by
  have hkind : done.callback.kind = .cancelled ∨ done.callback.kind = .idle ∨
      done.callback.kind = .start := by
    cases done with
    | given call => exact .inl rfl
    | start down => exact .inr (.inr rfl)
  have hcalled : ∃ s', s' = (if producer = some .agent then
        s.note (.called done.callback producer token)
      else { s.note (.called done.callback producer token) with scroll := none }) ∧
      Sound done.tokens [] s' ∧ s'.log = s.log ++ [Entry.called done.callback producer token] ∧
      s'.active = s.active ∧ s'.inFlight = s.inFlight ∧ s'.producer = s.producer ∧
      s'.contact = s.contact ∧ Settled s' := by
    refine ⟨_, rfl, ?_⟩
    have hcalled := h.called _ hkind hcall producer token
    split
    · exact ⟨hcalled, rfl, rfl, rfl, rfl, rfl, hsettled⟩
    · exact ⟨hcalled.of_view rfl, rfl, rfl, rfl, rfl, rfl, hsettled⟩
  obtain ⟨s', hs', hsound, hlog, hactive, hflight, hproducer, hcontact, hsettled'⟩ := hcalled
  have htaken : Sound (done.tokens ++ []) [done.callback] s' := by
    refine hsound.keep rfl (fun c => ?_) fun c hc => ?_
    · simp
    · exact hc.imp_right fun hc => List.mem_append_left _ (by simpa using hc)
  unfold Scheduler.cancel
  dsimp only
  rw [← hs']
  split
  · rename_i hother
    simp only [Bool.and_eq_true, Bool.or_eq_true, Bool.not_eq_true', decide_eq_true_eq, hactive,
      hproducer, hcontact] at hother
    have hcalm : Calm s'.log done.callback := by
      rw [hlog]
      exact calm_of_other h (hnew hother.1) hother.1 (or_assoc.mp hother.2)
    have hkept := runCleaner_kept turn htaken hsettled' hcalm
    exact ⟨hkept.sound, hkept.settled⟩
  · split
    · rename_i hfree
      have hidle : s'.active = false := by
        simp only [Bool.and_eq_true, Bool.not_eq_true'] at hfree
        exact hfree.1
      have hkept := runCleaner_kept turn htaken hsettled'
        ((hsound.quiet hidle).calm done.callback)
      exact ⟨hkept.sound, hkept.settled⟩
    · rename_i hbusy
      have hactive' : s'.active = true := by
        by_contra hidle
        simp only [Bool.not_eq_true] at hidle
        cases hfly : s'.inFlight with
        | false => simp [hidle, hfly] at hbusy
        | true => simp [hsound.active hfly] at hidle
      have hwaiting : Sound [] [] { s' with
          cleaners := s'.cleaners ++ [done], success := false, cancelling := true, moves := [],
          ending := none, agentSegments := [] } := by
        refine Sound.keep (s := { s' with cancelling := true }) hsound.cancelling rfl
          (fun c => ?_) fun c hc => ?_
        · simp only [owed, List.flatMap_append, List.flatMap_cons, List.flatMap_nil,
            List.append_nil, List.count_append, List.count_nil]
          omega
        · refine hc.imp_right fun hc => ?_
          simp only [List.append_nil] at hc
          simp [hc]
      refine pump_active (s := Scheduler.note _ _) hactive' (hwaiting.accept (.inr ?_))
      simp

theorem scheduleFlush_view : s.scheduleFlush.view = s.view := by
  unfold scheduleFlush
  split <;> rfl

theorem move_view {point : DisplayPoint} {time : Option Int} {producer : Producer}
    {contact : Option Nat} : (s.move turn point time producer contact).view = s.view := by
  unfold Scheduler.move
  dsimp only
  split
  · rfl
  · split
    · rw [scheduleFlush_view]
      rfl
    · rw [scheduleFlush_view]
      rfl

theorem settled_of_view (hsettled : Settled s) (hview : s'.view = s.view) : Settled s' := by
  simp only [view, Prod.mk.injEq] at hview
  obtain ⟨-, -, hactive, -, -, -, -, hcancelling, hcompletion, hstarted, hcleaners, -⟩ := hview
  unfold Settled at *
  rwa [hactive, hcancelling, hcompletion, hstarted, hcleaners]

theorem fire_sound (h : Sound [] [] s) (hsettled : Settled s) {timer : Timer} :
    Sound [] [] (s.fire turn timer) ∧ Settled (s.fire turn timer) := by
  unfold fire
  split
  · split
    · have hflush : Sound [] [] { s with flushScheduled := false } := h.of_view rfl
      exact ⟨(pump_sound hflush).1, (pump_sound hflush).2 hsettled⟩
    · exact ⟨h, hsettled⟩
  · split
    · exact ⟨h, hsettled⟩
    · rename_i hactive
      simp only [Bool.or_eq_true, Bool.not_eq_true', not_or, Bool.not_eq_false] at hactive
      split
      · exact pump_active hactive.1 (h.cancelling.of_view rfl)
      · exact ⟨h.of_view rfl, hsettled⟩
  · exact ⟨(pump_sound h).1, (pump_sound h).2 hsettled⟩

/-- What holds whenever an action is run. -/
def Stands (s : Scheduler) : Prop := Sound [] [] s ∧ Settled s

theorem posted_sound (h : Sound [] [] s) {index : Nat} {down : Down}
    (hdown : s.posted[index]? = some down) :
    Sound (Cleaner.start down).tokens [] { s with posted := s.posted.eraseIdx index } ∧
      down.call < s.calls := by
  obtain ⟨hindex, rfl⟩ := List.getElem?_eq_some_iff.mp hdown
  have hcount : ∀ c, (s.posted.flatMap fun down => (Cleaner.start down).tokens).count c =
      (Cleaner.start s.posted[index]).tokens.count c +
        ((s.posted.eraseIdx index).flatMap fun down => (Cleaner.start down).tokens).count c := by
    intro c
    have hperm := (List.getElem_cons_eraseIdx_perm hindex).flatMap_right
      fun down => (Cleaner.start down).tokens
    rw [← hperm.count_eq c, List.flatMap_cons, List.count_append]
  refine ⟨h.keep rfl (fun c => ?_) fun c hc => hc, ?_⟩
  · simp only [owed, hcount c, List.count_nil]
    omega
  · by_contra hcall
    have hfresh := h.fresh ⟨s.posted[index].call, .start⟩ (Nat.le_of_not_lt hcall)
    have hone : 0 < (Cleaner.start s.posted[index]).tokens.count ⟨s.posted[index].call, .start⟩ :=
      List.count_pos_iff.mpr (List.mem_cons_self ..)
    simp only [owed, hcount] at hfresh
    omega

theorem scrolled_stands (h : Stands s) : Stands ((s.startScroll turn).getD s) := by
  cases hscroll : s.startScroll turn with
  | none => exact h
  | some s' =>
    have hkept := startScroll_kept h.1 h.2 hscroll
    exact ⟨hkept.sound, hkept.settled⟩

theorem Stands.step {action : Action} (h : Stands s)
    (hstep : gestureScheduler.step s (turn, action) = some s') : Stands s' := by
  obtain ⟨hsound, hsettled⟩ := h
  cases action with
  | down point watchdog holdMs time producer contact =>
    obtain rfl := Option.some.inj hstep
    exact down_sound (hsound.call _ (by simp [Cleaner.tokens, Down.tokens, Cleaner.callback])
      (by simp [Cleaner.tokens, Down.tokens, Cleaner.callback])) hsettled
  | agent segments admitted =>
    obtain rfl := Option.some.inj hstep
    exact agent_sound (hsound.call _ (by simp) (by simp)) hsettled
  | traffic =>
    obtain rfl := Option.some.inj hstep
    exact ⟨hsound.of_view rfl, hsettled⟩
  | move point time producer contact =>
    obtain rfl := Option.some.inj hstep
    exact ⟨hsound.of_view move_view, settled_of_view hsettled move_view⟩
  | up point time producer contact =>
    obtain rfl := Option.some.inj hstep
    show Stands (s.up turn point time producer contact)
    unfold Scheduler.up
    split
    · exact ⟨hsound, hsettled⟩
    · have hup : Sound [] [] { s with
          trafficAt := turn.now, ending := some (point, time.getD turn.now) } :=
        hsound.of_view rfl
      exact ⟨(pump_sound hup).1, (pump_sound hup).2 hsettled⟩
  | idle =>
    obtain rfl := Option.some.inj hstep
    exact idle_sound (hsound.call _ (by simp) (by simp)) hsettled (Nat.lt_succ_self _)
  | cancel producer contact =>
    obtain rfl := Option.some.inj hstep
    have hcalled := hsound.call (Cleaner.given s.calls).tokens
      (by simp [Cleaner.tokens]) (by simp [Cleaner.tokens, Cleaner.callback])
    refine cancel_sound hcalled hsettled (Nat.lt_succ_self _) fun _ p t hin => ?_
    exact absurd (hsound.before _ p t hin) (Nat.lt_irrefl _)
  | scroll source dx dy bounds =>
    obtain rfl := Option.some.inj hstep
    have hcalled := hsound.call [] (by simp) (by simp)
    refine scrolled_stands ⟨?_, hsettled⟩
    exact hcalled.of_view rfl
  | posted index =>
    obtain ⟨down, hdown, rfl⟩ := Option.map_eq_some_iff.mp hstep
    obtain ⟨htaken, hcall⟩ := posted_sound hsound hdown
    exact cancel_sound htaken hsettled hcall fun hsome => by simp at hsome
  | timer index =>
    obtain ⟨timer, -, rfl⟩ := Option.map_eq_some_iff.mp hstep
    have hfired : Sound [] [] { s with timers := s.timers.eraseIdx index } := hsound.of_view rfl
    exact fire_sound hfired hsettled
  | answer id ok =>
    obtain ⟨sent, -, rfl⟩ := Option.map_eq_some_iff.mp hstep
    exact answer_sound hsound hsettled

end Scheduler

end Opensteer.AgentPhone
