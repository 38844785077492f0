import Mathlib.Logic.Relation
import Mathlib.Data.List.Induction

/-!
# Machines

A machine says what a state becomes under each action, if the action can
happen there: every choice its surroundings make (which message arrives, which
awaited promise settles, and how) is in the action. A run is a list of actions
(`Machine.run`); `Machine.Meets` is that each of its steps meets a condition on
the state before it and the action.

`Machine.run_induction` is induction over the runs from one state, with the
actions taken so far; `Machine.run_invariant` is the rule for invariants, and
`Machine.Simulates` the rule for a machine each step of which is some steps of
a relation on other states.
-/

namespace Opensteer

/-- What each action makes of a state, if it can happen there. -/
structure Machine (σ α : Type*) where
  step : σ → α → Option σ

namespace Machine

variable {σ α τ : Type*} (M : Machine σ α)

/-- The state after the actions, if each can happen where it is taken. -/
def run : σ → List α → Option σ
  | s, [] => some s
  | s, a :: as => (M.step s a).bind fun t => run t as

/-- Every step of the actions from `s` meets `G`. -/
def Meets (G : σ → α → Prop) : σ → List α → Prop
  | _, [] => True
  | s, a :: as => G s a ∧ ∀ t ∈ M.step s a, Meets G t as

@[simp] theorem run_nil (s : σ) : M.run s [] = some s := rfl

@[simp] theorem meets_nil (G : σ → α → Prop) (s : σ) : M.Meets G s [] := trivial

theorem run_cons_eq_some {s u : σ} {a : α} {as : List α} :
    M.run s (a :: as) = some u ↔ ∃ t, M.step s a = some t ∧ M.run t as = some u := by
  simp only [run, Option.bind_eq_some_iff]

theorem run_append_eq_some {s u : σ} {as bs : List α} :
    M.run s (as ++ bs) = some u ↔ ∃ t, M.run s as = some t ∧ M.run t bs = some u := by
  induction as generalizing s with
  | nil => simp
  | cons a as ih =>
    simp only [List.cons_append, run_cons_eq_some, ih]
    constructor
    · rintro ⟨t, ht, v, hv, hu⟩; exact ⟨v, ⟨t, ht, hv⟩, hu⟩
    · rintro ⟨v, ⟨t, ht, hv⟩, hu⟩; exact ⟨t, ht, v, hv, hu⟩

theorem run_snoc_eq_some {s u : σ} {as : List α} {a : α} :
    M.run s (as ++ [a]) = some u ↔ ∃ t, M.run s as = some t ∧ M.step t a = some u := by
  simp [run_append_eq_some, run_cons_eq_some]

/-- The state a run that can happen ends in has what every run's end has. -/
theorem exists_run {s : σ} {as : List α} {P : σ → Prop} (h : (M.run s as).isSome)
    (hP : ∀ t, M.run s as = some t → P t) : ∃ t, M.run s as = some t ∧ P t := by
  obtain ⟨t, ht⟩ := Option.isSome_iff_exists.mp h
  exact ⟨t, ht, hP t ht⟩

/-- A run whose end is found to have `P`. -/
theorem exists_run_of_any {s : σ} {l : List α} {P : σ → Prop} [DecidablePred P]
    (h : (M.run s l).any (fun t => P t) = true) : ∃ t, M.run s l = some t ∧ P t := by
  cases hrun : M.run s l with
  | none => simp [hrun] at h
  | some t => exact ⟨t, rfl, by simpa [hrun] using h⟩

theorem meets_snoc_iff {G : σ → α → Prop} {s t : σ} {as : List α} {a : α}
    (hrun : M.run s as = some t) : M.Meets G s (as ++ [a]) ↔ M.Meets G s as ∧ G t a := by
  induction as generalizing s with
  | nil =>
    simp only [run_nil, Option.some.injEq] at hrun
    subst hrun
    simp [Meets]
  | cons b as ih =>
    obtain ⟨v, hv, hrun⟩ := (run_cons_eq_some M).mp hrun
    simp only [List.cons_append, Meets, hv, Option.mem_def, Option.some.injEq, forall_eq', ih hrun,
      and_assoc]

theorem meets_snoc {G : σ → α → Prop} {s t : σ} {as : List α} {a : α}
    (hrun : M.run s as = some t) (h : M.Meets G s (as ++ [a])) : M.Meets G s as ∧ G t a :=
  (M.meets_snoc_iff hrun).mp h

theorem meets_append {G : σ → α → Prop} {s t : σ} {as bs : List α} (hrun : M.run s as = some t) :
    M.Meets G s (as ++ bs) ↔ M.Meets G s as ∧ M.Meets G t bs := by
  induction as generalizing s with
  | nil =>
    obtain rfl := Option.some.inj hrun
    simp
  | cons a as ih =>
    obtain ⟨v, hv, hrun⟩ := (run_cons_eq_some M).mp hrun
    simp only [List.cons_append, Meets, hv, Option.mem_def, Option.some.injEq, forall_eq', ih hrun,
      and_assoc]

theorem Meets.mono {G H : σ → α → Prop} (hGH : ∀ s a, G s a → H s a) {s : σ} {as : List α}
    (h : M.Meets G s as) : M.Meets H s as := by
  induction as generalizing s with
  | nil => trivial
  | cons a as ih => exact ⟨hGH _ _ h.1, fun t ht => ih (h.2 t ht)⟩

theorem meets_and {G H : σ → α → Prop} {s : σ} {as : List α} (hG : M.Meets G s as)
    (hH : M.Meets H s as) : M.Meets (fun s a => G s a ∧ H s a) s as := by
  induction as generalizing s with
  | nil => trivial
  | cons a as ih => exact ⟨⟨hG.1, hH.1⟩, fun t ht => ih (hG.2 t ht) (hH.2 t ht)⟩

theorem meets_true (s : σ) (as : List α) : M.Meets (fun _ _ => True) s as := by
  induction as generalizing s with
  | nil => trivial
  | cons a as ih => exact ⟨trivial, fun t _ => ih t⟩

instance decidableMeets (G : σ → α → Prop) [∀ s a, Decidable (G s a)] :
    ∀ (s : σ) (as : List α), Decidable (M.Meets G s as)
  | _, [] => isTrue trivial
  | s, a :: as =>
    match h : M.step s a with
    | none => decidable_of_iff (G s a) ⟨fun hG => ⟨hG, by simp [h]⟩, And.left⟩
    | some t =>
      have := decidableMeets G t as
      decidable_of_iff (G s a ∧ M.Meets G t as)
        ⟨fun hG => ⟨hG.1, by simpa [h] using hG.2⟩, fun hG => ⟨hG.1, hG.2 t (by simp [h])⟩⟩

/-- Induction over the runs from `s₀` whose steps meet `G`, with the actions
taken so far: what holds of no actions, and of one action more whenever it
holds before, holds at the end of every run. -/
theorem run_induction {G : σ → α → Prop} {s₀ : σ} {P : List α → σ → Prop} (h₀ : P [] s₀)
    (hstep : ∀ as s a t, M.run s₀ as = some s → P as s → G s a → M.step s a = some t →
      P (as ++ [a]) t)
    {as : List α} {s : σ} (hmeets : M.Meets G s₀ as) (hrun : M.run s₀ as = some s) : P as s := by
  induction as using List.reverseRecOn generalizing s with
  | nil =>
    simp only [run_nil, Option.some.injEq] at hrun
    exact hrun ▸ h₀
  | append_singleton as a ih =>
    obtain ⟨t, ht, ha⟩ := (run_snoc_eq_some M).mp hrun
    obtain ⟨hm, hG⟩ := meets_snoc M ht hmeets
    exact hstep as t a s ht (ih hm ht) hG ha

/-- What holds at first and is kept by every step that meets `G` holds at the
end of every run whose steps meet `G`. -/
theorem run_invariant {G : σ → α → Prop} {P : σ → Prop} {s₀ : σ} (h₀ : P s₀)
    (hstep : ∀ s a t, P s → G s a → M.step s a = some t → P t)
    {as : List α} {s : σ} (hmeets : M.Meets G s₀ as) (hrun : M.run s₀ as = some s) : P s :=
  M.run_induction (P := fun _ s => P s) h₀ (fun _ s a t _ hP hG hs => hstep s a t hP hG hs)
    hmeets hrun

/-- What holds at first and is kept by every step holds at the end of every run. -/
theorem invariant {P : σ → Prop} {s₀ : σ} (h₀ : P s₀)
    (hstep : ∀ s a t, P s → M.step s a = some t → P t)
    {as : List α} {s : σ} (hrun : M.run s₀ as = some s) : P s :=
  M.run_invariant h₀ (fun s a t hP _ hs => hstep s a t hP hs) (M.meets_true s₀ as) hrun

/-- Where a map of states commutes with every step, it commutes with the runs. -/
theorem run_map {M : Machine σ α} {N : Machine τ α} {f : σ → τ}
    (h : ∀ s a, N.step (f s) a = (M.step s a).map f) (s : σ) (as : List α) :
    N.run (f s) as = (M.run s as).map f := by
  induction as generalizing s with
  | nil => rfl
  | cons a as ih =>
    rw [run, run, h, Option.bind_map, Option.map_bind]
    exact congrArg _ (funext ih)

theorem meets_of_map {M : Machine σ α} {N : Machine τ α} {f : σ → τ} {G : σ → α → Prop}
    {H : τ → α → Prop} (h : ∀ s a, N.step (f s) a = (M.step s a).map f)
    (hG : ∀ s a, H (f s) a → G s a) {s : σ} {as : List α} (hmeets : N.Meets H (f s) as) :
    M.Meets G s as := by
  induction as generalizing s with
  | nil => trivial
  | cons a as ih =>
    refine ⟨hG s a hmeets.1, fun t ht => ih (hmeets.2 (f t) ?_)⟩
    rw [h, Option.mem_def.mp ht]
    rfl

/-- Every step from a state where `I` holds keeps `I` and is some steps of `R`
between the states' images. -/
def Simulates (I : σ → Prop) (R : τ → τ → Prop) (f : σ → τ) : Prop :=
  ∀ s a t, I s → M.step s a = some t → I t ∧ Relation.ReflTransGen R (f s) (f t)

/-- A run of a machine that simulates `R` is some steps of `R`. -/
theorem Simulates.run {I : σ → Prop} {R : τ → τ → Prop} {f : σ → τ} (h : M.Simulates I R f)
    {s t : σ} {as : List α} (hs : I s) (hrun : M.run s as = some t) :
    I t ∧ Relation.ReflTransGen R (f s) (f t) :=
  M.invariant (P := fun t => I t ∧ Relation.ReflTransGen R (f s) (f t)) ⟨hs, .refl⟩
    (fun u a v hu hv => ⟨(h u a v hu.1 hv).1, hu.2.trans (h u a v hu.1 hv).2⟩) hrun

end Machine

end Opensteer
