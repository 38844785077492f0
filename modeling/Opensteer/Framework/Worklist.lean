import Mathlib.Algebra.Order.Ring.Int
import Mathlib.Data.List.Basic
import Mathlib.Logic.Relation
import Opensteer.Framework.Chronicle

/-!
# Collecting what can be reached

A worklist takes the first of what is pending; if nothing collected has its key, it is collected
and what comes next to it is put in front of the rest (`collect`). It ends because there are
finitely many elements, and where keys tell elements apart it collects exactly those that can be
reached from what was pending at first (`mem_collect_iff`), each once (`nodup_collect`), and what
comes next to an element after it (`collect_before`).
-/

namespace Opensteer.Worklist

variable {α κ : Type*} [DecidableEq κ] {nodes : List α}

/-- One of the members has the element's key. -/
def Has (key : α → κ) (members : List α) (a : α) : Prop := key a ∈ members.map key

instance (key : α → κ) (members : List α) (a : α) : Decidable (Has key members a) :=
  inferInstanceAs (Decidable (_ ∈ _))

/-- How much can still be pushed: what comes next to the elements whose key nothing collected has,
and these themselves. -/
def left (key : α → κ) (next : α → List α) (nodes members : List α) : Nat :=
  ((nodes.filter fun a => ¬Has key members a).map fun a => (next a).length + 1).sum

omit [DecidableEq κ] in
theorem has_concat {key : α → κ} {members : List α} {a b : α} :
    Has key (members ++ [a]) b ↔ Has key members b ∨ key b = key a := by
  simp [Has]

theorem left_cons (key : α → κ) (next : α → List α) (a : α) (nodes members : List α) :
    left key next (a :: nodes) members =
      (if Has key members a then 0 else (next a).length + 1) + left key next nodes members := by
  by_cases h : Has key members a <;> simp [left, h]

theorem left_concat_le (key : α → κ) (next : α → List α) (nodes members : List α) (a : α) :
    left key next nodes (members ++ [a]) ≤ left key next nodes members := by
  induction nodes with
  | nil => exact Nat.le_refl _
  | cons b nodes ih =>
    rw [left_cons, left_cons]
    refine Nat.add_le_add ?_ ih
    by_cases hb : Has key members b
    · simp [has_concat, hb]
    · rw [if_neg hb]
      split <;> omega

theorem left_lt {key : α → κ} (next : α → List α) {members : List α} {a : α} (hin : a ∈ nodes)
    (ha : ¬Has key members a) :
    left key next nodes (members ++ [a]) + (next a).length < left key next nodes members := by
  induction nodes with
  | nil => simp at hin
  | cons b nodes ih =>
    rw [left_cons, left_cons]
    obtain rfl | hin := List.mem_cons.mp hin
    · have hle := left_concat_le key next nodes members a
      rw [if_pos (has_concat.mpr (.inr rfl)), if_neg ha]
      omega
    · have hlt := ih hin
      by_cases hb : Has key members b
      · rw [if_pos (has_concat.mpr (.inl hb)), if_pos hb]
        omega
      · rw [if_neg hb]
        split <;> omega

/-- The elements collected from what is pending, after those there are. -/
def collect (all : ∀ a, a ∈ nodes) (key : α → κ) (next : α → List α) (pending members : List α) :
    List α :=
  match pending with
  | [] => members
  | a :: pending =>
    if Has key members a then collect all key next pending members
    else collect all key next (next a ++ pending) (members ++ [a])
termination_by left key next nodes members + pending.length
decreasing_by
  · simp
  · have hlt := left_lt next (all a) ‹_›
    simp only [List.length_append, List.length_cons]
    omega

variable {all : ∀ a, a ∈ nodes} {key : α → κ} {next : α → List α} {pending members : List α} {a b : α}

theorem nodup_collect (h : (members.map key).Nodup) :
    ((collect all key next pending members).map key).Nodup := by
  fun_induction collect all key next pending members with
  | case1 members => exact h
  | case2 members a pending _ ih => exact ih h
  | case3 members a pending ha ih =>
    refine ih ?_
    rw [List.map_append]
    exact List.nodup_append.mpr ⟨h, by simp, by simpa using fun b hb heq => ha (List.mem_map.mpr ⟨b, hb, heq⟩)⟩

theorem subset_collect : members ⊆ collect all key next pending members := by
  fun_induction collect all key next pending members with
  | case1 members => exact List.Subset.refl _
  | case2 members a pending _ ih => exact ih
  | case3 members a pending _ ih => exact fun b hb => ih (List.mem_append_left _ hb)

/-- What is collected can be reached. -/
theorem collect_induction {P : α → Prop} (hpending : ∀ a ∈ pending, P a)
    (hmembers : ∀ a ∈ members, P a) (hnext : ∀ a, P a → ∀ b ∈ next a, P b) :
    ∀ a ∈ collect all key next pending members, P a := by
  fun_induction collect all key next pending members with
  | case1 members => exact hmembers
  | case2 members a pending _ ih => exact ih (fun b hb => hpending b (by simp [hb])) hmembers
  | case3 members a pending _ ih =>
    have ha := hpending a (by simp)
    refine ih (fun b hb => ?_) (fun b hb => ?_)
    · obtain hb | hb := List.mem_append.mp hb
      · exact hnext a ha b hb
      · exact hpending b (by simp [hb])
    · obtain hb | hb := List.mem_append.mp hb
      · exact hmembers b hb
      · obtain rfl := List.mem_singleton.mp hb
        exact ha

/-- What is collected has what was pending, and what comes next to it. -/
theorem collect_closed (hkey : Function.Injective key)
    (hmembers : ∀ a ∈ members, ∀ b ∈ next a, b ∈ members ∨ b ∈ pending) :
    pending ⊆ collect all key next pending members ∧
      ∀ a ∈ collect all key next pending members, ∀ b ∈ next a,
        b ∈ collect all key next pending members := by
  fun_induction collect all key next pending members with
  | case1 members =>
    exact ⟨List.nil_subset _, fun a ha b hb => (hmembers a ha b hb).resolve_right (by simp)⟩
  | case2 members a pending ha ih =>
    have ha' : a ∈ members := (List.mem_map_of_injective hkey).mp ha
    obtain ⟨hsub, hclosed⟩ := ih fun c hc b hb => by
      obtain hb | hb := hmembers c hc b hb
      · exact .inl hb
      · obtain rfl | hb := List.mem_cons.mp hb
        · exact .inl ha'
        · exact .inr hb
    exact ⟨List.cons_subset.mpr ⟨subset_collect ha', hsub⟩, hclosed⟩
  | case3 members a pending _ ih =>
    obtain ⟨hsub, hclosed⟩ := ih fun c hc b hb => by
      obtain hc | hc := List.mem_append.mp hc
      · obtain hb | hb := hmembers c hc b hb
        · exact .inl (List.mem_append_left _ hb)
        · obtain rfl | hb := List.mem_cons.mp hb
          · exact .inl (by simp)
          · exact .inr (List.mem_append_right _ hb)
      · obtain rfl := List.mem_singleton.mp hc
        exact .inr (List.mem_append_left _ hb)
    refine ⟨List.cons_subset.mpr ⟨subset_collect (by simp), fun b hb => ?_⟩, hclosed⟩
    exact hsub (List.mem_append_right _ hb)

/-- Exactly what can be reached from what was pending is collected. -/
theorem mem_collect_iff (hkey : Function.Injective key) :
    a ∈ collect all key next pending [] ↔
      ∃ s ∈ pending, Relation.ReflTransGen (fun a b => b ∈ next a) s a := by
  constructor
  · exact collect_induction (P := fun a => ∃ s ∈ pending, Relation.ReflTransGen _ s a)
      (fun a ha => ⟨a, ha, .refl⟩) (by simp)
      (fun a ⟨s, hs, hreach⟩ b hb => ⟨s, hs, hreach.tail hb⟩) a
  · rintro ⟨s, hs, hreach⟩
    obtain ⟨hsub, hclosed⟩ : pending ⊆ collect all key next pending [] ∧
        ∀ a ∈ collect all key next pending [], ∀ b ∈ next a, b ∈ collect all key next pending [] :=
      collect_closed hkey (by simp)
    induction hreach with
    | refl => exact hsub hs
    | tail _ hb ih => exact hclosed _ ih _ hb

/-- What is pending is collected part by part. -/
theorem collect_append {more : List α} :
    collect all key next (pending ++ more) members =
      collect all key next more (collect all key next pending members) := by
  fun_induction collect all key next pending members with
  | case1 members => rfl
  | case2 members a pending ha ih => rw [List.cons_append, collect, if_pos ha, ih]
  | case3 members a pending ha ih => rw [List.cons_append, collect, if_neg ha, ← List.append_assoc, ih]

/-- Where everything that is pending is there, nothing is collected. -/
theorem collect_of_has (h : ∀ a ∈ pending, Has key members a) : collect all key next pending members = members := by
  fun_induction collect all key next pending members with
  | case1 members => rfl
  | case2 members a pending _ ih => exact ih fun b hb => h b (List.mem_cons_of_mem _ hb)
  | case3 members a pending ha _ => exact absurd (h a List.mem_cons_self) ha

omit [DecidableEq κ] in
theorem Has.mono {members' : List α} (h : Has key members a) (hsub : members ⊆ members') : Has key members' a :=
  List.map_subset key hsub h

/-- What is collected has the keys of what was pending, and of what comes next to it. -/
theorem has_collect (hmembers : ∀ a ∈ members, ∀ b ∈ next a, Has key members b ∨ b ∈ pending) :
    (∀ a ∈ pending, Has key (collect all key next pending members) a) ∧
      ∀ a ∈ collect all key next pending members, ∀ b ∈ next a, Has key (collect all key next pending members) b := by
  fun_induction collect all key next pending members with
  | case1 members =>
    exact ⟨fun _ h => absurd h List.not_mem_nil, fun a ha b hb => (hmembers a ha b hb).resolve_right List.not_mem_nil⟩
  | case2 members a pending ha ih =>
    obtain ⟨hpending, hclosed⟩ := ih fun c hc b hb => by
      obtain hb | hb := hmembers c hc b hb
      · exact .inl hb
      · obtain rfl | hb := List.mem_cons.mp hb
        · exact .inl ha
        · exact .inr hb
    exact ⟨List.forall_mem_cons.mpr ⟨ha.mono subset_collect, hpending⟩, hclosed⟩
  | case3 members a pending _ ih =>
    have hnew : Has key (members ++ [a]) a := has_concat.mpr (.inr rfl)
    obtain ⟨hpending, hclosed⟩ := ih fun c hc b hb => by
      obtain hc | hc := List.mem_append.mp hc
      · obtain hb | hb := hmembers c hc b hb
        · exact .inl (has_concat.mpr (.inl hb))
        · obtain rfl | hb := List.mem_cons.mp hb
          · exact .inl hnew
          · exact .inr (List.mem_append_right _ hb)
      · obtain rfl := List.mem_singleton.mp hc
        exact .inr (List.mem_append_left _ hb)
    refine ⟨List.forall_mem_cons.mpr ⟨hnew.mono subset_collect, fun b hb => ?_⟩, hclosed⟩
    exact hpending b (List.mem_append_right _ hb)

/-- Each element is collected after what it needs, where that stays there and what comes next to an element needs no
more than it. -/
theorem collect_before {Q : List α → α → Prop} (hgrow : ∀ members a b, Q members b → Q (members ++ [a]) b)
    (hnext : ∀ members a, ∀ b ∈ next a, Q (members ++ [a]) b) (hpending : ∀ a ∈ pending, Q members a)
    (hmembers : Chronicle.Before Q members) : Chronicle.Before Q (collect all key next pending members) := by
  fun_induction collect all key next pending members with
  | case1 members => exact hmembers
  | case2 members a pending _ ih => exact ih (fun b hb => hpending b (List.mem_cons_of_mem _ hb)) hmembers
  | case3 members a pending _ ih =>
    refine ih (fun b hb => ?_) (hmembers.snoc (hpending a List.mem_cons_self))
    obtain hb | hb := List.mem_append.mp hb
    · exact hnext members a b hb
    · exact hgrow members a b (hpending b (List.mem_cons_of_mem _ hb))

end Opensteer.Worklist
