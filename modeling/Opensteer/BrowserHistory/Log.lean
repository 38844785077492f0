import Opensteer.BrowserHistory.Model
import Opensteer.Framework.Chronicle

/-!
# What a history's log says

When a value is installed rightly (`Installed`), where the value of a profile comes from (`Fresh`), and when a read
of it is owing (`Owing`), each with what one event more makes of it.
-/

namespace Opensteer.BrowserHistory

open Chronicle

/-- A mutation or a drop of the profile, a change of scope, or a disconnect. -/
def Event.cancels (profileId : String) : Event → Bool
  | .began _ profileId' _ _ => profileId' = profileId
  | .dropped profileId' => profileId' = profileId
  | .rescoped => true
  | .disconnected => true
  | _ => false

/-- The event is of the profile, or of all. -/
def Event.about (profileId : String) : Event → Bool
  | .noticed profileId' => profileId' = profileId
  | .loading profileId' => profileId' = profileId
  | .dispatched _ profileId' => profileId' = profileId
  | .installed _ profileId' _ => profileId' = profileId
  | .readFailed _ profileId' => profileId' = profileId
  | .began _ profileId' _ _ => profileId' = profileId
  | .settled _ => false
  | .dropped profileId' => profileId' = profileId
  | .rescoped => true
  | .disconnected => true

/-- The mutations of the profile that have begun have settled. -/
def AllSettled (profileId : String) (log : List Event) : Prop :=
  ∀ mutation change discards, Event.began mutation profileId change discards ∈ log → Event.settled mutation ∈ log

/-- What is installed is of a read since whose dispatch nothing has cancelled it. -/
def Undisturbed (pre : List Event) (event : Event) : Prop :=
  ∀ read profileId value, event = .installed read profileId value →
    ∃ (before after : List Event), pre = before ++ Event.dispatched read profileId :: after ∧ ∀ e ∈ after, e.cancels profileId = false

/-- A read is dispatched when the mutations before it have settled. -/
def Awaited (pre : List Event) (event : Event) : Prop :=
  ∀ read profileId, event = .dispatched read profileId → AllSettled profileId pre

/-- A mutation has discarded a read of the profile, or found none made yet, and none has been made since. -/
def Owing (log : List Event) (profileId : String) : Prop :=
  ∃ (pre : List Event) (mutation : Nat) (change : Change) (post : List Event), log = pre ++ Event.began mutation profileId change true :: post ∧ Event.loading profileId ∉ post

/-- What the mutations of the profile change. -/
def changes (profileId : String) (log : List Event) : List Change :=
  log.filterMap fun
    | .began _ profileId' change _ => if profileId' = profileId then some change else none
    | _ => none

theorem changes_append (profileId : String) (log log' : List Event) :
    changes profileId (log ++ log') = changes profileId log ++ changes profileId log' := List.filterMap_append

/-- The profile's last read was dispatched behind its last change notice, and the value is what it brought, with
what mutations have changed since, or it failed. -/
def Fresh (origin : String → String) (log : List Event) (profileId : String) (value : History) : Prop :=
  ∃ (pre : List Event) (read : Nat) (post : List Event), log = pre ++ Event.dispatched read profileId :: post ∧ Event.noticed profileId ∉ post ∧
    (∀ read', Event.dispatched read' profileId ∉ post) ∧
    ((∃ (brought : History) (between since : List Event), post = between ++ Event.installed read profileId brought :: since ∧
      value = (changes profileId since).foldl (fun value change => change.update origin value) brought) ∨
    Event.readFailed read profileId ∈ post)

variable {origin : String → String} {log : List Event} {event : Event} {profileId : String} {value : History}

theorem owing_snoc : Owing (log ++ [event]) profileId ↔
    (∃ mutation change, event = .began mutation profileId change true) ∨
    (Owing log profileId ∧ event ≠ .loading profileId) := by
  constructor
  · rintro ⟨pre, mutation, change, post, hlog, hpost⟩
    obtain ⟨rfl, -, -⟩ | ⟨post', rfl, hold⟩ := snoc_cases hlog
    · exact .inl ⟨mutation, change, rfl⟩
    · rw [List.mem_append, List.mem_singleton, not_or] at hpost
      exact .inr ⟨⟨pre, mutation, change, post', hold, hpost.1⟩, Ne.symm hpost.2⟩
  · rintro (⟨mutation, change, rfl⟩ | ⟨⟨pre, mutation, change, post, rfl, hpost⟩, hne⟩)
    · exact ⟨log, mutation, change, [], rfl, List.not_mem_nil⟩
    · refine ⟨pre, mutation, change, post ++ [event], by rw [List.append_assoc, List.cons_append], ?_⟩
      rw [List.mem_append, List.mem_singleton, not_or]
      exact ⟨hpost, hne.symm⟩

theorem owing_of_not_about (h : event.about profileId = false) : Owing (log ++ [event]) profileId ↔ Owing log profileId := by
  rw [owing_snoc]
  constructor
  · rintro (⟨mutation, change, rfl⟩ | ⟨howing, -⟩)
    · simp [Event.about] at h
    · exact howing
  · refine fun howing => .inr ⟨howing, ?_⟩
    rintro rfl
    simp [Event.about] at h

theorem not_owing_loading : ¬Owing (log ++ [Event.loading profileId]) profileId := by
  rw [owing_snoc]
  rintro (⟨_, _, heq⟩ | ⟨-, hne⟩)
  · cases heq
  · exact hne rfl

/-- Only a notice, a read and a mutation of the profile change where its value comes from. -/
theorem Fresh.snoc (h : Fresh origin log profileId value) (hnoticed : event ≠ .noticed profileId)
    (hdispatched : ∀ read, event ≠ .dispatched read profileId) :
    Fresh origin (log ++ [event]) profileId
      ((changes profileId [event]).foldl (fun value change => change.update origin value) value) := by
  obtain ⟨pre, read, post, rfl, hnotice, hlast, hvalue⟩ := h
  refine ⟨pre, read, post ++ [event], by rw [List.append_assoc, List.cons_append], ?_, fun read' => ?_, ?_⟩
  · rw [List.mem_append, List.mem_singleton, not_or]
    exact ⟨hnotice, hnoticed.symm⟩
  · rw [List.mem_append, List.mem_singleton, not_or]
    exact ⟨hlast read', (hdispatched read').symm⟩
  · rcases hvalue with ⟨brought, between, since, rfl, rfl⟩ | hfailed
    · refine .inl ⟨brought, between, since ++ [event], by rw [List.append_assoc, List.cons_append], ?_⟩
      rw [changes_append, List.foldl_append]
    · exact .inr (List.mem_append_left _ hfailed)

theorem changes_of_not_began (h : ∀ mutation change discards, event ≠ .began mutation profileId change discards) :
    changes profileId [event] = [] := by
  cases event with
  | began mutation profileId' change discards =>
    refine List.filterMap_cons_none (if_neg ?_)
    rintro rfl
    exact h mutation change discards rfl
  | noticed _ => rfl
  | loading _ => rfl
  | dispatched _ _ => rfl
  | installed _ _ _ => rfl
  | readFailed _ _ => rfl
  | settled _ => rfl
  | dropped _ => rfl
  | rescoped => rfl
  | disconnected => rfl

theorem Fresh.of_not_about (h : Fresh origin log profileId value) (habout : event.about profileId = false) :
    Fresh origin (log ++ [event]) profileId value := by
  have hnoticed : event ≠ .noticed profileId := by
    rintro rfl
    simp [Event.about] at habout
  have hdispatched (read) : event ≠ .dispatched read profileId := by
    rintro rfl
    simp [Event.about] at habout
  have hbegan (mutation change discards) : event ≠ .began mutation profileId change discards := by
    rintro rfl
    simp [Event.about] at habout
  have hsnoc := h.snoc hnoticed hdispatched
  rwa [changes_of_not_began hbegan] at hsnoc

theorem Fresh.began (h : Fresh origin log profileId value) (mutation : Nat) (change : Change) (discards : Bool) :
    Fresh origin (log ++ [Event.began mutation profileId change discards]) profileId (change.update origin value) := by
  have hsnoc := (@Fresh.snoc _ _ (.began mutation profileId change discards)) h (by rintro ⟨⟩) (by rintro _ ⟨⟩)
  rwa [show changes profileId [.began mutation profileId change discards] = [change] from
    List.filterMap_cons_some (if_pos rfl)] at hsnoc

/-- `Owing`, found from the first event on. -/
def owing (profileId : String) (log : List Event) : Bool :=
  log.foldl (fun owing event =>
    match event with
    | .began _ profileId' _ discards => owing || (profileId' = profileId && discards)
    | .loading profileId' => owing && profileId' ≠ profileId
    | _ => owing) false

theorem owing_eq_true : owing profileId log = true ↔ Owing log profileId := by
  induction log using List.reverseRecOn with
  | nil =>
    refine iff_of_false Bool.false_ne_true ?_
    rintro ⟨pre, mutation, change, post, hlog, -⟩
    simp at hlog
  | append_singleton log event ih =>
    rw [owing_snoc, ← ih, owing, owing, List.foldl_append]
    cases event with
    | began mutation profileId' change discards => simp [or_comm]
    | loading profileId' => simp
    | _ => simp

instance (log : List Event) (profileId : String) : Decidable (Owing log profileId) :=
  decidable_of_iff (owing profileId log = true) owing_eq_true

end Opensteer.BrowserHistory
