import Mathlib.Data.List.Forall2

/-!
# Runs with enough fuel

Where each element of a list has a result from some fuel on, the list has its results from some fuel on
(`exists_fuel_mapM`). What is asked of the elements is then counted on the results.
-/

namespace Opensteer

variable {α β : Type*} {R : α → β → Prop} {l : List α} {m : List β}

/-- Of finitely many statements that each hold from some fuel on, all hold from some fuel on. -/
theorem exists_fuel_forall {p : α → Nat → Prop} (h : ∀ a ∈ l, ∃ n, ∀ fuel ≥ n, p a fuel) :
    ∃ n, ∀ fuel ≥ n, ∀ a ∈ l, p a fuel := by
  induction l with
  | nil => exact ⟨0, fun _ _ a ha => absurd ha List.not_mem_nil⟩
  | cons a l ih =>
    obtain ⟨n, hn⟩ := h a List.mem_cons_self
    obtain ⟨k, hk⟩ := ih fun b hb => h b (List.mem_cons_of_mem _ hb)
    refine ⟨max n k, fun fuel hfuel b hb => ?_⟩
    rcases List.mem_cons.mp hb with rfl | hb
    · exact hn fuel (by omega)
    · exact hk fuel (by omega) b hb

theorem exists_mapM_forall₂ {f : α → Option β} (h : ∀ a ∈ l, ∃ b, f a = some b ∧ R a b) :
    ∃ m, l.mapM f = some m ∧ List.Forall₂ R l m := by
  induction l with
  | nil => exact ⟨[], rfl, .nil⟩
  | cons a l ih =>
    obtain ⟨b, hb, hab⟩ := h a List.mem_cons_self
    obtain ⟨m, hm, hlm⟩ := ih fun c hc => h c (List.mem_cons_of_mem _ hc)
    refine ⟨b :: m, ?_, .cons hab hlm⟩
    rw [List.mapM_cons, hb, hm]
    rfl

/-- A list has its results from some fuel on, in every context. -/
theorem exists_fuel_mapM {γ : Type*} {f : Nat → γ → α → Option β}
    (h : ∀ a ∈ l, ∃ n, ∀ fuel ≥ n, ∀ c, ∃ b, f fuel c a = some b ∧ R a b) :
    ∃ n, ∀ fuel ≥ n, ∀ c, ∃ m, l.mapM (f fuel c) = some m ∧ List.Forall₂ R l m := by
  obtain ⟨n, hn⟩ := exists_fuel_forall (p := fun a fuel => ∀ c, ∃ b, f fuel c a = some b ∧ R a b) h
  exact ⟨n, fun fuel hfuel c => exists_mapM_forall₂ fun a ha => hn fuel hfuel a ha c⟩

section

variable {P : α → Prop} {q : β → Prop}

theorem exists_iff_of_forall₂ (h : List.Forall₂ (fun a b => q b ↔ P a) l m) :
    (∃ b ∈ m, q b) ↔ ∃ a ∈ l, P a := by
  induction h with
  | nil => simp only [List.not_mem_nil, false_and, exists_false]
  | cons hab _ ih => simp only [List.mem_cons, exists_eq_or_imp, ih, hab]

theorem forall_iff_of_forall₂ (h : List.Forall₂ (fun a b => q b ↔ P a) l m) :
    (∀ b ∈ m, q b) ↔ ∀ a ∈ l, P a := by
  induction h with
  | nil => simp only [List.not_mem_nil, false_imp_iff, implies_true]
  | cons hab _ ih => simp only [List.mem_cons, forall_eq_or_imp, ih, hab]

/-- One result is counted exactly where one place of the list, and no other, has what is asked. -/
theorem countP_eq_one_iff_of_forall₂ [DecidablePred q] (h : List.Forall₂ (fun a b => q b ↔ P a) l m) :
    m.countP (fun b => decide (q b)) = 1 ↔
      ∃ before a after, l = before ++ a :: after ∧ P a ∧ ∀ other ∈ before ++ after, ¬P other := by
  induction h with
  | nil => simp only [List.countP_nil, Nat.zero_ne_one, List.nil_eq, List.append_eq_nil_iff, reduceCtorEq,
      and_false, false_and, exists_false]
  | @cons a b l m hab hlm ih =>
    by_cases hb : q b
    · have hnone : m.countP (fun b => decide (q b)) = 0 ↔ ∀ other ∈ l, ¬P other := by
        have := exists_iff_of_forall₂ hlm
        rw [List.countP_eq_zero]
        simp only [decide_eq_true_eq]
        rw [← not_iff_not]
        push Not
        exact this
      rw [List.countP_cons_of_pos (by simpa using hb), Nat.add_eq_right, hnone]
      refine ⟨fun h => ⟨[], a, l, rfl, hab.mp hb, h⟩, ?_⟩
      rintro ⟨before, c, after, heq, hc, hother⟩
      cases before with
      | nil =>
        obtain ⟨rfl, rfl⟩ := List.cons.inj heq
        exact hother
      | cons d before =>
        obtain ⟨rfl, -⟩ := List.cons.inj heq
        exact absurd (hab.mp hb) (hother _ List.mem_cons_self)
    · rw [List.countP_cons_of_neg (by simpa using hb), ih]
      constructor
      · rintro ⟨before, c, after, rfl, hc, hother⟩
        refine ⟨a :: before, c, after, rfl, hc, fun other hmem => ?_⟩
        rcases List.mem_cons.mp hmem with rfl | hmem
        · exact fun ha => hb (hab.mpr ha)
        · exact hother other hmem
      · rintro ⟨before, c, after, heq, hc, hother⟩
        cases before with
        | nil =>
          obtain ⟨rfl, rfl⟩ := List.cons.inj heq
          exact absurd (hab.mpr hc) hb
        | cons d before =>
          obtain ⟨rfl, rfl⟩ := List.cons.inj heq
          exact ⟨before, c, after, rfl, hc, fun other hmem => hother other (List.mem_cons_of_mem _ hmem)⟩

end

end Opensteer
