import Opensteer.AgentPhone.GestureSound

/-!
# Runs of the gesture scheduler

Whatever is called, however segments are answered and whenever timers run out, no finger is left
down (`never_leaves_finger_down`).
-/

namespace Opensteer.AgentPhone

open Chronicle (Since Before)
open Scheduler (Sound Settled Stands)

variable {s : Scheduler} {actions : List (Turn × Action)}

theorem stands_initial : Stands {} where
  left :=
    { flight := rfl
      active := fun hs => Bool.noConfusion hs
      held := Since.nil _
      failed := Since.nil _
      began := by simp
      calm := Before.nil _
      kinds := by simp
      before := by simp
      once := fun c => by simp [Scheduler.owed, callbacksRun]
      fresh := fun c _ => by simp [Scheduler.owed, callbacksRun]
      accepted := by simp }
  right _ := ⟨rfl, rfl, rfl, rfl⟩

theorem stands_run (hrun : gestureScheduler.run {} actions = some s) : Stands s :=
  gestureScheduler.invariant stands_initial (fun _ _ _ h hstep => h.step hstep) hrun

/-- At most one segment is in flight, of a contact that is active; a contact is active until a
segment that does not continue it is answered ok, and after a failure there are only cancel strokes
until one is; a cancel or an idle is answered when no contact that it names, begun before it, is
active; a callback is run once, and those that were accepted have been when no contact is active. -/
theorem never_leaves_finger_down (hrun : gestureScheduler.run {} actions = some s) :
    ((unanswered s.log).length ≤ 1 ∧ (unanswered s.log ≠ [] → s.active)) ∧
      Held s.active s.serial s.log ∧
      Since (fun entry post => ∀ contact id segment,
        entry = .answered contact id segment false → OnlyCancels post) s.log ∧
      Before (fun pre entry => ∀ callback answer,
        entry = .ran callback answer → Calm pre callback) s.log ∧
      (callbacksRun s.log).Nodup ∧
      (s.active = false →
        ∀ callback, .accepted callback ∈ s.log → callback ∈ callbacksRun s.log) := by
  obtain ⟨hsound, hsettled⟩ := stands_run hrun
  refine ⟨?_, hsound.held, ?_, hsound.calm, ?_, fun hidle callback haccepted => ?_⟩
  · rw [hsound.flight]
    cases hflight : s.inFlight with
    | false => simp
    | true => simp [hsound.active hflight]
  · exact hsound.failed.mono fun _ _ hpost contact id segment he =>
      (hpost contact id segment he).1
  · refine List.nodup_iff_count_le_one.mpr fun callback => ?_
    have honce := hsound.once callback
    omega
  · obtain ⟨hcompletion, -, hcleaners, -⟩ := hsettled hidle
    obtain hran | hwaits | hwaits := hsound.accepted callback haccepted
    · exact hran
    · simp [hcompletion] at hwaits
    · simp [hcleaners] at hwaits

/-- A press that is released. -/
theorem never_leaves_finger_down_pressed : ∃ s,
    gestureScheduler.run {}
      [(⟨0, fun _ => true⟩, .down ⟨1, 2⟩ true 1 none .person none),
        (⟨10, fun _ => true⟩, .answer 1 true),
        (⟨20, fun _ => true⟩, .up ⟨1, 2⟩ none .person none),
        (⟨30, fun _ => true⟩, .answer 2 true)] = some s ∧
      s.active = false ∧ ⟨0, .done⟩ ∈ callbacksRun s.log := by
  have hrun : gestureScheduler.run {}
      [(⟨0, fun _ => true⟩, .down ⟨1, 2⟩ true 1 none .person none),
        (⟨10, fun _ => true⟩, .answer 1 true),
        (⟨20, fun _ => true⟩, .up ⟨1, 2⟩ none .person none),
        (⟨30, fun _ => true⟩, .answer 2 true)] = some _ := rfl
  obtain ⟨-, -, -, -, -, hran⟩ := never_leaves_finger_down hrun
  exact ⟨_, hrun, rfl, hran rfl _ (by decide)⟩

/-- While an agent's gesture goes on, a cancel of a person's contact is answered at once. -/
theorem answers_other_cancel : ¬ ∀ (actions : List (Turn × Action)) (s : Scheduler),
    gestureScheduler.run {} actions = some s →
      Before (fun pre entry => ∀ callback answer, entry = .ran callback answer →
        ∀ (before : List Entry) producer token after,
          pre = before ++ Entry.called callback producer token :: after →
            ∀ contact producer' token', .began contact producer' token' ∈ before →
              .ended contact ∈ pre) s.log := by
  intro h
  have hrun : gestureScheduler.run {}
      [(⟨0, fun _ => true⟩, .agent [⟨[⟨5, 5⟩], by simp, 50, false, true, false, 0⟩] true),
        (⟨1, fun _ => true⟩, .cancel (some .person) none)] = some _ := rfl
  have hran := h _ _ hrun
    [.began 1 .agent none, .accepted ⟨0, .result⟩,
      .dispatched 1 1 ⟨[⟨5, 5⟩], by simp, 50, false, true, false, 0⟩,
      .called ⟨1, .cancelled⟩ (some .person) none]
    (.ran ⟨1, .cancelled⟩ .unit) [] rfl ⟨1, .cancelled⟩ .unit rfl
    [.began 1 .agent none, .accepted ⟨0, .result⟩,
      .dispatched 1 1 ⟨[⟨5, 5⟩], by simp, 50, false, true, false, 0⟩]
    (some .person) none [] rfl 1 .agent none (by simp)
  simp at hran

end Opensteer.AgentPhone
