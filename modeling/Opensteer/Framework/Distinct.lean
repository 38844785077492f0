import Mathlib.Data.List.Basic
import Mathlib.Data.List.Nodup

/-!
# Lists of distinct elements

The first of each element of a list make a list without duplicates (`nodup_eraseDups`), in their
order. Elements that an order tells apart are sorted in one way, in whatever order they come
(`mergeSort_eq_of_perm`), and in parts where each of one part comes before each of the other
(`mergeSort_append`).
-/

open scoped List

namespace Opensteer

variable {α : Type*}

section Dups

variable [DecidableEq α] {l m : List α}

theorem eraseDups_sublist (l : List α) : l.eraseDups <+ l := by
  induction h : l.length using Nat.strongRecOn generalizing l with
  | _ n ih =>
    cases l with
    | nil => simp
    | cons a l =>
      rw [List.eraseDups_cons]
      have hlen : (l.filter fun b => !b == a).length < n := by
        rw [← h]
        exact Nat.lt_succ_of_le (List.length_filter_le _ l)
      exact ((ih _ hlen _ rfl).trans List.filter_sublist).cons_cons a

theorem nodup_eraseDups (l : List α) : l.eraseDups.Nodup := by
  induction h : l.length using Nat.strongRecOn generalizing l with
  | _ n ih =>
    cases l with
    | nil => simp
    | cons a l =>
      rw [List.eraseDups_cons]
      have hlen : (l.filter fun b => !b == a).length < n := by
        rw [← h]
        exact Nat.lt_succ_of_le (List.length_filter_le _ l)
      refine List.nodup_cons.mpr ⟨fun ha => ?_, ih _ hlen _ rfl⟩
      simpa using List.mem_eraseDups.mp ha

/-- Taking elements out of a list and putting them in again is a permutation of it. -/
theorem filter_notMem_perm (hl : l.Nodup) (hm : m.Nodup) (hsub : m ⊆ l) :
    ((l.filter fun x => x ∉ m) ++ m).Perm l := by
  have hin : (l.filter fun x => x ∈ m).Perm m := by
    rw [List.perm_ext_iff_of_nodup (hl.filter _) hm]
    intro x
    simpa using fun hx => hsub hx
  have hsplit := List.filter_append_perm (fun x => decide (x ∈ m)) l
  refine List.Perm.trans ?_ hsplit
  refine List.perm_append_comm.trans (hin.symm.append ?_)
  simp

theorem eraseDups_eq_self (h : l.Nodup) : l.eraseDups = l := by
  induction l with
  | nil => rfl
  | cons a l ih =>
    obtain ⟨ha, hl⟩ := List.nodup_cons.mp h
    rw [List.eraseDups_cons, List.filter_eq_self.mpr, ih hl]
    intro b hb
    simpa using fun heq : b = a => ha (heq ▸ hb)

end Dups

section Sorting

variable {le : α → α → Bool} {l l' : List α}
  (htrans : ∀ a b c, le a b → le b c → le a c) (htotal : ∀ a b, le a b || le b a)
include htrans htotal

/-- A list is sorted in one way, whatever its order. -/
theorem mergeSort_eq_of_perm (hanti : ∀ a ∈ l, ∀ b ∈ l, le a b → le b a → a = b) (h : l'.Perm l) :
    l'.mergeSort le = l.mergeSort le := by
  refine List.Perm.eq_of_pairwise ?_ (List.pairwise_mergeSort htrans htotal _)
    (List.pairwise_mergeSort htrans htotal _) ?_
  · intro a b ha hb hab hba
    exact hanti a (h.subset (List.mem_mergeSort.mp ha)) b (List.mem_mergeSort.mp hb) hab hba
  · exact (List.mergeSort_perm _ _).trans (h.trans (List.mergeSort_perm _ _).symm)

/-- Two parts, each of one before each of the other, are sorted one after the other. -/
theorem mergeSort_append (hanti : ∀ a ∈ l ++ l', ∀ b ∈ l ++ l', le a b → le b a → a = b)
    (h : ∀ a ∈ l, ∀ b ∈ l', le a b) : (l ++ l').mergeSort le = l.mergeSort le ++ l'.mergeSort le := by
  have hperm : (l.mergeSort le ++ l'.mergeSort le).Perm (l ++ l') :=
    (List.mergeSort_perm l le).append (List.mergeSort_perm l' le)
  refine List.Perm.eq_of_pairwise ?_ (List.pairwise_mergeSort htrans htotal _) ?_
    ((List.mergeSort_perm _ _).trans hperm.symm)
  · intro a b ha hb hab hba
    exact hanti a (List.mem_mergeSort.mp ha) b (hperm.subset hb) hab hba
  · refine List.pairwise_append.mpr ⟨List.pairwise_mergeSort htrans htotal _,
      List.pairwise_mergeSort htrans htotal _, fun a ha b hb => ?_⟩
    exact h a (List.mem_mergeSort.mp ha) b (List.mem_mergeSort.mp hb)

end Sorting

end Opensteer
