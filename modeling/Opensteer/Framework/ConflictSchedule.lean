import Mathlib.Logic.Relation
import Mathlib.Data.List.Nodup
import Mathlib.Data.List.Pairwise

/-!
# Schedules that respect conflicts

Tasks are submitted one after another, wait, run and finish; two that conflict
may not run together, and may not overtake one another. `Schedule.Step` lets a
task start when nothing that conflicts with it runs, or waits ahead of it. From
that alone, whatever decides when to start tasks, the tasks that run are free of
conflicts (`Schedule.Ok.running_free`), and of two that conflict the one
submitted first starts first (`Schedule.Ok.in_order`).
-/

namespace Opensteer

variable {τ : Type*}

/-- `a` stands somewhere before `b` in `l`. -/
def Precedes (l : List τ) (a b : τ) : Prop := [a, b].Sublist l

theorem Precedes.mem_left {l : List τ} {a b : τ} (h : Precedes l a b) : a ∈ l :=
  h.subset (List.mem_cons_self ..)

theorem Precedes.mem_right {l : List τ} {a b : τ} (h : Precedes l a b) : b ∈ l :=
  h.subset (List.mem_cons_of_mem _ (List.mem_singleton_self _))

theorem Precedes.mono {l l' : List τ} {a b : τ} (h : Precedes l a b) (hl : l.Sublist l') :
    Precedes l' a b :=
  List.Sublist.trans h hl

theorem precedes_of_append {l l' : List τ} {a b : τ} (ha : a ∈ l) (hb : b ∈ l') :
    Precedes (l ++ l') a b :=
  List.Sublist.append (List.singleton_sublist.mpr ha) (List.singleton_sublist.mpr hb)

/-- Whether `a` comes before a member `b` of a list without repetitions depends
only on what stands in front of `b`. -/
theorem precedes_iff_of_nodup {pre post : List τ} {a b : τ} (h : (pre ++ b :: post).Nodup) :
    Precedes (pre ++ b :: post) a b ↔ a ∈ pre := by
  refine ⟨fun hab => ?_, fun ha => precedes_of_append ha (List.mem_cons_self ..)⟩
  have hpost : b ∉ post := by
    have := (List.nodup_append.mp h).2.1
    exact (List.nodup_cons.mp this).1
  induction pre with
  | nil =>
    simp only [List.nil_append, Precedes] at hab
    cases hab with
    | cons _ h' => exact absurd (Precedes.mem_right h') hpost
    | cons_cons _ h' => exact absurd (List.singleton_sublist.mp h') hpost
  | cons c pre ih =>
    rw [List.cons_append] at hab h
    cases hab with
    | cons _ h' => exact List.mem_cons_of_mem _ (ih (List.nodup_cons.mp h).2 h')
    | cons_cons _ h' => exact List.mem_cons_self ..

/-- Appending elements that are not there changes no order among the others. -/
theorem precedes_append_iff {l l' : List τ} {a b : τ} (hb : b ∉ l') :
    Precedes (l ++ l') a b ↔ Precedes l a b := by
  refine ⟨fun h => ?_, fun h => h.mono (List.sublist_append_left _ _)⟩
  obtain ⟨l₁, l₂, he, h₁, h₂⟩ := List.sublist_append_iff.mp h
  rcases List.eq_nil_or_concat l₂ with rfl | ⟨l₃, c, rfl⟩
  · rw [List.append_nil] at he
    rwa [← he] at h₁
  · have hc : b = c := by
      have := congrArg List.getLast? he
      simpa using this
    exact absurd (h₂.subset (by simp)) (hc ▸ hb)

/-- Two members of a list are the same, or one stands before the other. -/
theorem precedes_total {l : List τ} {a b : τ} (ha : a ∈ l) (hb : b ∈ l) :
    a = b ∨ Precedes l a b ∨ Precedes l b a := by
  obtain ⟨pre, post, rfl⟩ := List.append_of_mem hb
  rcases List.mem_append.mp ha with ha | ha
  · exact .inr (.inl (precedes_of_append ha (List.mem_cons_self ..)))
  · rcases List.mem_cons.mp ha with rfl | ha
    · exact .inl rfl
    · refine .inr (.inr ?_)
      exact List.Sublist.trans ((List.singleton_sublist.mpr ha).cons_cons b)
        (List.sublist_append_right _ _)

/-- In a list without repetitions, `a` before `b` excludes `b` before `a`. -/
theorem Precedes.asymm {l : List τ} {a b : τ} (h : Precedes l a b) (hnd : l.Nodup) :
    ¬ Precedes l b a := by
  obtain ⟨pre, post, rfl⟩ := List.append_of_mem h.mem_right
  have ha := (precedes_iff_of_nodup hnd).mp h
  obtain ⟨p, q, rfl⟩ := List.append_of_mem ha
  intro hba
  rw [List.append_assoc, List.cons_append] at hba hnd
  have hb := (precedes_iff_of_nodup hnd).mp hba
  exact (List.nodup_append.mp hnd).2.2 b hb b (by simp) rfl

/-- An order in a list without repetitions is the order in its sublists. -/
theorem Precedes.of_sublist {l l' : List τ} {a b : τ} (h : Precedes l a b) (hnd : l.Nodup)
    (hl : l'.Sublist l) (ha : a ∈ l') (hb : b ∈ l') : Precedes l' a b := by
  rcases precedes_total ha hb with rfl | hab | hba
  · exact absurd (h.nodup hnd) (by simp)
  · exact hab
  · exact absurd (hba.mono hl) (h.asymm hnd)

/-- Tasks in the order they were submitted, those that wait (in that order),
those that run, and those that have started (in the order they did). -/
structure Schedule (τ : Type*) where
  isOpen : Bool
  submitted : List τ
  waiting : List τ
  running : List τ
  started : List τ

namespace Schedule

/-- The schedule before anything is submitted. -/
def empty : Schedule τ := ⟨true, [], [], [], []⟩

/-- What may happen to a schedule. A task starts when nothing that conflicts
with it runs or waits ahead of it; a closed schedule gives up what waits and
takes nothing more. -/
inductive Step (conflict : τ → τ → Prop) : Schedule τ → Schedule τ → Prop
  | submit {s : Schedule τ} {t : τ} (hopen : s.isOpen = true) (hnew : t ∉ s.submitted) :
      Step conflict s { s with submitted := s.submitted ++ [t], waiting := s.waiting ++ [t] }
  | start {s : Schedule τ} {pre post : List τ} {t : τ} (hwait : s.waiting = pre ++ t :: post)
      (hrun : ∀ u ∈ s.running, ¬ conflict u t) (hpre : ∀ u ∈ pre, ¬ conflict u t) :
      Step conflict s { s with
        waiting := pre ++ post, running := s.running ++ [t], started := s.started ++ [t] }
  | finish {s : Schedule τ} {pre post : List τ} {t : τ} (hrun : s.running = pre ++ t :: post) :
      Step conflict s { s with running := pre ++ post }
  | close {s : Schedule τ} : Step conflict s { s with isOpen := false, waiting := [] }

/-- What every step keeps. -/
structure Ok (conflict : τ → τ → Prop) (s : Schedule τ) : Prop where
  submitted_nodup : s.submitted.Nodup
  waiting_sublist : s.waiting.Sublist s.submitted
  started_submitted : ∀ t ∈ s.started, t ∈ s.submitted
  once : (s.waiting ++ s.started).Nodup
  /-- While the schedule is open, what was submitted waits or has started. -/
  accounted : s.isOpen = true → ∀ t ∈ s.submitted, t ∈ s.waiting ∨ t ∈ s.started
  closed : s.isOpen = false → s.waiting = []
  running_free : s.running.Pairwise fun a b => ¬ conflict a b
  in_order : ∀ pre b post, s.started = pre ++ b :: post →
    ∀ a, Precedes s.submitted a b → conflict a b → a ∈ pre

theorem Ok.empty (conflict : τ → τ → Prop) : Ok conflict (empty : Schedule τ) where
  submitted_nodup := List.nodup_nil
  waiting_sublist := .slnil
  started_submitted := by simp [Schedule.empty]
  once := List.nodup_nil
  accounted := by simp [Schedule.empty]
  closed := by simp [Schedule.empty]
  running_free := .nil
  in_order := by simp [Schedule.empty]

theorem Ok.submit {conflict : τ → τ → Prop} {s : Schedule τ} {t : τ} (h : Ok conflict s)
    (hopen : s.isOpen = true) (hnew : t ∉ s.submitted) :
    Ok conflict { s with submitted := s.submitted ++ [t], waiting := s.waiting ++ [t] } where
  submitted_nodup := by
    rw [List.nodup_append]
    refine ⟨h.submitted_nodup, List.nodup_singleton t, ?_⟩
    rintro a ha _ (_ | ⟨_, ⟨⟩⟩) rfl
    exact hnew ha
  waiting_sublist := h.waiting_sublist.append (List.Sublist.refl _)
  started_submitted u hu := List.mem_append_left _ (h.started_submitted u hu)
  once := by
    have hw : t ∉ s.waiting := fun ht => hnew (h.waiting_sublist.subset ht)
    have hs : t ∉ s.started := fun ht => hnew (h.started_submitted t ht)
    rw [List.append_assoc, List.singleton_append]
    exact List.nodup_middle.mpr
      (List.nodup_cons.mpr ⟨by simp [hw, hs], h.once⟩)
  accounted _ u hu := by
    rcases List.mem_append.mp hu with hu | hu
    · exact (h.accounted hopen u hu).imp (List.mem_append_left _) id
    · exact .inl (List.mem_append_right _ hu)
  closed hc := by simp only [hopen, Bool.true_eq_false] at hc
  running_free := h.running_free
  in_order pre b post hb a hab hc := by
    have hbs : b ∈ s.submitted := h.started_submitted b (by rw [hb]; simp)
    have hbt : b ∉ [t] := fun hbt => hnew (List.mem_singleton.mp hbt ▸ hbs)
    exact h.in_order pre b post hb a ((precedes_append_iff hbt).mp hab) hc

theorem Ok.start {conflict : τ → τ → Prop} {s : Schedule τ} {pre post : List τ} {t : τ}
    (h : Ok conflict s) (hwait : s.waiting = pre ++ t :: post)
    (hrun : ∀ u ∈ s.running, ¬ conflict u t) (hpre : ∀ u ∈ pre, ¬ conflict u t) :
    Ok conflict { s with
      waiting := pre ++ post, running := s.running ++ [t], started := s.started ++ [t] } where
  submitted_nodup := h.submitted_nodup
  waiting_sublist :=
    List.Sublist.trans (List.Sublist.append (List.Sublist.refl _) (List.sublist_cons_self _ _))
      (hwait ▸ h.waiting_sublist)
  started_submitted u hu := by
    rcases List.mem_append.mp hu with hu | hu
    · exact h.started_submitted u hu
    · rw [List.mem_singleton] at hu
      exact h.waiting_sublist.subset (by rw [hwait, hu]; simp)
  once := by
    have := h.once
    rw [hwait] at this
    have hperm : (pre ++ t :: (post ++ s.started)).Perm (pre ++ post ++ (s.started ++ [t])) := by
      rw [← List.append_assoc, List.append_assoc pre]
      exact List.perm_middle.trans (List.perm_append_singleton t _).symm
    rw [List.append_assoc, List.cons_append] at this
    exact hperm.nodup_iff.mp this
  accounted ho u hu := by
    rcases h.accounted ho u hu with hw | hw
    · rw [hwait, List.mem_append, List.mem_cons] at hw
      rcases hw with hw | rfl | hw
      · exact .inl (List.mem_append_left _ hw)
      · exact .inr (List.mem_append_right _ (List.mem_singleton_self _))
      · exact .inl (List.mem_append_right _ hw)
    · exact .inr (List.mem_append_left _ hw)
  closed hc := by
    have := h.closed hc
    rw [hwait] at this
    simp at this
  running_free := by
    rw [List.pairwise_append]
    refine ⟨h.running_free, List.pairwise_singleton _ _, fun a ha b hb => ?_⟩
    rw [List.mem_singleton] at hb
    exact hb ▸ hrun a ha
  in_order p b q hb a hab hc := by
    rcases List.eq_nil_or_concat q with rfl | ⟨q', c, rfl⟩
    · -- `b` is the task that starts: what conflicts with it no longer waits.
      obtain ⟨rfl, rfl⟩ : s.started = p ∧ t = b := by
        have := List.append_inj' hb rfl
        exact ⟨this.1, by simpa using this.2⟩
      have hopen : s.isOpen = true := by
        by_contra hcl
        have := h.closed (by simpa using hcl)
        rw [hwait] at this
        simp at this
      rcases h.accounted hopen a hab.mem_left with hw | hw
      · have hbefore : Precedes s.waiting a t :=
          hab.of_sublist h.submitted_nodup h.waiting_sublist hw (by rw [hwait]; simp)
        have hnd : s.waiting.Nodup := h.waiting_sublist.nodup h.submitted_nodup
        rw [hwait] at hbefore hnd
        exact absurd hc (hpre a ((precedes_iff_of_nodup hnd).mp hbefore))
      · exact hw
    · have : s.started = p ++ b :: q' := by
        rw [List.concat_eq_append, ← List.cons_append, ← List.append_assoc] at hb
        exact (List.append_inj' hb rfl).1
      exact h.in_order p b q' this a hab hc

theorem Ok.step {conflict : τ → τ → Prop} {s t : Schedule τ} (h : Ok conflict s)
    (hst : Step conflict s t) : Ok conflict t := by
  cases hst with
  | submit hopen hnew => exact h.submit hopen hnew
  | start hwait hrun hpre => exact h.start hwait hrun hpre
  | finish hrun =>
    refine { h with running_free := ?_ }
    exact h.running_free.sublist
      (hrun ▸ List.Sublist.append (List.Sublist.refl _) (List.sublist_cons_self _ _))
  | close =>
    exact { h with
      waiting_sublist := List.nil_sublist _
      once := h.once.sublist (List.sublist_append_right _ _)
      accounted := fun ho => by simp at ho
      closed := fun _ => rfl }

/-- Every schedule that steps lead to from the empty one is `Ok`. -/
theorem Ok.of_steps {conflict : τ → τ → Prop} {s : Schedule τ}
    (h : Relation.ReflTransGen (Step conflict) Schedule.empty s) : Ok conflict s := by
  induction h with
  | refl => exact .empty conflict
  | tail _ hst ih => exact ih.step hst

end Schedule

end Opensteer
