import Mathlib.Data.List.Basic

/-!
# Sorting by a flag

A stable sort by a flag puts the elements without it first, and leaves the order of the others as it is
(`mergeSort_flag`).
-/

namespace Opensteer

variable {α : Type*} {p : α → Bool} {l : List α}

theorem filter_append_of_pairwise (h : l.Pairwise fun a b => p a → p b) : (l.filter fun a => !p a) ++ l.filter p = l := by
  induction l with
  | nil => rfl
  | cons a l ih =>
    obtain ⟨ha, hl⟩ := List.pairwise_cons.mp h
    cases hp : p a with
    | false => simp [hp, ih hl]
    | true =>
      have hall : ∀ b ∈ l, p b := fun b hb => ha b hb hp
      have hnone : (l.filter fun a => !p a) = [] := List.filter_eq_nil_iff.mpr fun b hb => by simp [hall b hb]
      rw [List.filter_cons_of_neg (by simp [hp]), hnone, List.nil_append, List.filter_eq_self]
      exact List.forall_mem_cons.mpr ⟨hp, hall⟩

theorem mergeSort_flag (p : α → Bool) (l : List α) :
    l.mergeSort (fun a b => (p a).toNat ≤ (p b).toNat) = (l.filter fun a => !p a) ++ l.filter p := by
  set le : α → α → Bool := fun a b => (p a).toNat ≤ (p b).toNat
  have trans : ∀ a b c, le a b → le b c → le a c := fun a b c hab hbc =>
    decide_eq_true (Nat.le_trans (of_decide_eq_true hab) (of_decide_eq_true hbc))
  have total : ∀ a b, le a b || le b a := fun a b => by
    simp only [le, Bool.or_eq_true, decide_eq_true_eq]
    exact Nat.le_total _ _
  have hsorted : (l.mergeSort le).Pairwise fun a b => p a → p b := by
    refine (List.pairwise_mergeSort trans total l).imp fun {a b} hab ha => ?_
    have := of_decide_eq_true hab
    cases hb : p b with
    | false => simp [ha, hb] at this
    | true => rfl
  -- Elements with the same flag are sorted already.
  have hsub {q : α → Bool} (hq : ∀ a b, q a → q b → p a = p b) : l.filter q = (l.mergeSort le).filter q := by
    have hpair : (l.filter q).Pairwise fun a b => le a b := by
      refine List.pairwise_of_forall_mem_list fun a ha b hb => decide_eq_true ?_
      exact Nat.le_of_eq (congrArg Bool.toNat (hq a b (List.mem_filter.mp ha).2 (List.mem_filter.mp hb).2))
    have hsublist := (List.sublist_mergeSort trans total hpair List.filter_sublist).filter q
    simp only [List.filter_filter, Bool.and_self] at hsublist
    exact hsublist.eq_of_length (((List.mergeSort_perm l le).symm.filter q).length_eq)
  rw [hsub (q := fun a => !p a) fun a b ha hb => by simp_all, hsub (q := p) fun a b ha hb => by rw [ha, hb]]
  exact (filter_append_of_pairwise hsorted).symm

end Opensteer
