import Mathlib.Data.List.Pairwise
import Mathlib.Data.List.Infix
import Mathlib.Data.List.Basic

/-!
# Logs in ascending order

A log whose members' positions ascend, and the part of it between two
positions (`between`). A reader that has taken everything between where it
started and where it is now can take the next part and has again; what it has
taken is then a prefix of the log from its start on, so its positions ascend
and nothing below one of them is missing (`IsPrefix` lemmas at the end).
-/

namespace Opensteer

variable {α : Type*} (pos : α → Nat)

/-- Each member stands above all before it. -/
def Ascending (l : List α) : Prop := l.Pairwise fun a b => pos a < pos b

/-- The members above `lo`, up to `hi`. -/
def between (l : List α) (lo hi : Nat) : List α := l.filter fun a => lo < pos a ∧ pos a ≤ hi

/-- The members above `lo`. -/
def above (l : List α) (lo : Nat) : List α := l.filter fun a => lo < pos a

variable {pos} {l : List α} {lo mid hi : Nat}

theorem Ascending.le (hl : Ascending pos l) : l.Pairwise fun a b => pos a ≤ pos b :=
  hl.imp fun h => Nat.le_of_lt h

theorem mem_between {a : α} : a ∈ between pos l lo hi ↔ a ∈ l ∧ lo < pos a ∧ pos a ≤ hi := by
  simp [between]

theorem mem_above {a : α} : a ∈ above pos l lo ↔ a ∈ l ∧ lo < pos a := by simp [above]

theorem between_eq_nil (h : hi ≤ lo) : between pos l lo hi = [] := by
  refine List.filter_eq_nil_iff.mpr fun a _ ha => ?_
  have := of_decide_eq_true ha
  omega

/-- Two parts of a list in order, one wholly below the other, make up their union. -/
theorem filter_append_filter (hl : l.Pairwise fun a b => pos a ≤ pos b) {p q : α → Bool}
    (h : ∀ a b, p a = true → q b = true → pos a < pos b) :
    l.filter p ++ l.filter q = l.filter fun a => p a || q a := by
  induction l with
  | nil => rfl
  | cons a l ih =>
    obtain ⟨ha, hl⟩ := List.pairwise_cons.mp hl
    by_cases hp : p a = true
    · have hq : ¬ q a = true := fun hq => Nat.lt_irrefl _ (h a a hp hq)
      rw [List.filter_cons_of_pos hp, List.filter_cons_of_neg hq,
        List.filter_cons_of_pos (by simp [hp]), List.cons_append, ih hl]
    · by_cases hq : q a = true
      · have hnil : l.filter p = [] := List.filter_eq_nil_iff.mpr fun b hb hpb =>
          absurd (h b a hpb hq) (Nat.not_lt_of_le (ha b hb))
        rw [List.filter_cons_of_neg hp, List.filter_cons_of_pos hq,
          List.filter_cons_of_pos (by simp [hq]), ← ih hl, hnil, List.nil_append, List.nil_append]
      · rw [List.filter_cons_of_neg hp, List.filter_cons_of_neg hq,
          List.filter_cons_of_neg (by simp [hp, hq]), ih hl]

/-- What ascends divides at any position. -/
theorem between_append (hl : Ascending pos l) (hlo : lo ≤ mid) (hhi : mid ≤ hi) :
    between pos l lo mid ++ between pos l mid hi = between pos l lo hi := by
  refine (filter_append_filter hl.le fun a b ha hb => ?_).trans
    (List.filter_congr fun a _ => ?_)
  · have := of_decide_eq_true ha
    have := of_decide_eq_true hb
    omega
  · rw [← Bool.decide_or, decide_eq_decide]
    omega

theorem between_append_above (hl : Ascending pos l) (h : lo ≤ mid) :
    between pos l lo mid ++ above pos l mid = above pos l lo := by
  refine (filter_append_filter hl.le fun a b ha hb => ?_).trans
    (List.filter_congr fun a _ => ?_)
  · have := of_decide_eq_true ha
    have := of_decide_eq_true hb
    omega
  · rw [← Bool.decide_or, decide_eq_decide]
    omega

/-- The only member between a position and the next is the one there. -/
theorem between_succ (hl : Ascending pos l) {a : α} (ha : a ∈ l) {n : Nat} (hn : pos a = n + 1) :
    between pos l n (n + 1) = [a] := by
  induction l with
  | nil => cases ha
  | cons b l ih =>
    obtain ⟨hb, hl⟩ := List.pairwise_cons.mp hl
    rcases List.mem_cons.mp ha with rfl | ha'
    · have hnil : between pos l n (n + 1) = [] := by
        refine List.filter_eq_nil_iff.mpr fun c hc hp => ?_
        have := of_decide_eq_true hp
        have := hb c hc
        omega
      rw [between, List.filter_cons_of_pos (by simp [hn])]
      exact congrArg _ hnil
    · have := hb a ha'
      rw [between, List.filter_cons_of_neg (by simp; omega)]
      exact ih hl ha'

theorem between_prefix_above (hl : Ascending pos l) : between pos l lo hi <+: above pos l lo := by
  rcases Nat.le_total lo hi with h | h
  · exact ⟨_, between_append_above hl h⟩
  · rw [between_eq_nil h]
    exact List.nil_prefix

/-- Taking from a part of the log what is above a position in it. -/
theorem between_filter (h : lo ≤ mid) :
    (between pos l lo hi).filter (fun a => mid < pos a) = between pos l mid hi := by
  rw [between, List.filter_filter]
  refine List.filter_congr fun a _ => ?_
  by_cases hm : mid < pos a
  · have : lo < pos a := by omega
    simp [hm, this]
  · simp [hm]

/-! ## Prefixes -/

theorem Ascending.filter (hl : Ascending pos l) (p : α → Bool) : Ascending pos (l.filter p) :=
  List.Pairwise.filter p hl

/-- Only one member stands at a position. -/
theorem Ascending.eq_of_pos_eq (hl : Ascending pos l) {a b : α} (ha : a ∈ l) (hb : b ∈ l)
    (hab : pos a = pos b) : a = b := by
  by_contra hne
  have hl' : l.Pairwise fun a b => pos a ≠ pos b := List.Pairwise.imp (fun h => Nat.ne_of_lt h) hl
  have : Std.Symm fun a b => pos a ≠ pos b := ⟨fun _ _ h => h.symm⟩
  exact hl'.forall ha hb hne hab

theorem Ascending.of_isPrefix (hl : Ascending pos l) {t : List α} (ht : t <+: l) : Ascending pos t :=
  List.Pairwise.sublist ht.sublist hl

/-- Of an ascending list, nothing below a member of a prefix is missing before it. -/
theorem Ascending.mem_of_isPrefix (hl : Ascending pos l) {t pre post : List α} {a b : α}
    (ht : t <+: l) (he : t = pre ++ a :: post) (hb : b ∈ l) (hba : pos b < pos a) : b ∈ pre := by
  obtain ⟨rest, rfl⟩ := ht
  subst he
  rw [List.append_assoc] at hl hb
  rcases List.mem_append.mp hb with hb | hb
  · exact hb
  · have hlt := (List.pairwise_append.mp hl).2.1
    rw [List.cons_append] at hlt hb
    rcases List.mem_cons.mp hb with rfl | hb
    · omega
    · have := (List.pairwise_cons.mp hlt).1 b hb
      omega

end Opensteer
