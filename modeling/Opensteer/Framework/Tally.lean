import Mathlib.Data.Finset.Dedup
import Mathlib.Data.Finset.Basic
import Mathlib.Data.List.Count
import Mathlib.Data.List.Perm.Basic
import Mathlib.Algebra.Order.Group.Int

/-!
# Sets and counts of what is in progress

Code that works on several things at once often keeps, beside them, the set of
the keys they hold, or a map from each key to how many of them hold it.
`IsKeySet` and `IsTally` say that the set or the map is that of a list of keys,
and the lemmas say how it follows the list as keys come and go.
-/

namespace Opensteer

variable {κ : Type*} [DecidableEq κ]

/-- `s` is the set of the keys in `l`, none of which is there twice. -/
structure IsKeySet (s : Finset κ) (l : List κ) : Prop where
  nodup : l.Nodup
  eq : s = l.toFinset

namespace IsKeySet

variable {s : Finset κ} {l l' : List κ}

theorem nil : IsKeySet (∅ : Finset κ) [] := ⟨List.nodup_nil, rfl⟩

theorem mem_iff (h : IsKeySet s l) {k : κ} : k ∈ s ↔ k ∈ l := by
  rw [h.eq, List.mem_toFinset]

theorem perm (h : IsKeySet s l) (hp : l.Perm l') : IsKeySet s l' :=
  ⟨hp.nodup_iff.mp h.nodup, h.eq.trans (List.toFinset_eq_of_perm _ _ hp)⟩

theorem insert (h : IsKeySet s l) {k : κ} (hk : k ∉ s) : IsKeySet (insert k s) (k :: l) :=
  ⟨List.nodup_cons.mpr ⟨fun hl => hk (h.mem_iff.mpr hl), h.nodup⟩,
    by rw [h.eq, List.toFinset_cons]⟩

theorem erase {k : κ} (h : IsKeySet s (k :: l)) : IsKeySet (s.erase k) l := by
  obtain ⟨hk, hnd⟩ := List.nodup_cons.mp h.nodup
  refine ⟨hnd, ?_⟩
  rw [h.eq, List.toFinset_cons, Finset.erase_insert (by simpa using hk)]

/-- A key is added at the end, if it is not there yet. -/
theorem hold (h : IsKeySet s l) (k : κ) : IsKeySet (Insert.insert k s) (if k ∈ l then l else l ++ [k]) := by
  split
  · rename_i hk
    rwa [Finset.insert_eq_of_mem (h.mem_iff.mpr hk)]
  · rename_i hk
    exact (h.insert fun hs => hk (h.mem_iff.mp hs)).perm (List.perm_append_singleton k l).symm

/-- A key is taken away, wherever it is. -/
theorem drop (h : IsKeySet s l) (k : κ) : IsKeySet (s.erase k) (l.filter (· ≠ k)) := by
  refine ⟨h.nodup.filter _, ?_⟩
  rw [h.eq, List.toFinset_filter]
  ext x
  simp [and_comm]

/-- What may be a key is added, if it is one. -/
theorem insertOption (h : IsKeySet s l) {o : Option κ} (ho : ∀ k ∈ o, k ∉ s) :
    IsKeySet (o.elim s fun k => Insert.insert k s) (o.toList ++ l) := by
  cases o with
  | none => exact h
  | some k => exact h.insert (ho k rfl)

theorem eraseOption {o : Option κ} (h : IsKeySet s (o.toList ++ l)) :
    IsKeySet (o.elim s s.erase) l := by
  cases o with
  | none => exact h
  | some k => exact h.erase

end IsKeySet

/-- `m` maps each key of `l` to how often it is there, and no other key. -/
def IsTally (m : κ → Option Int) (l : List κ) : Prop :=
  ∀ k, m k = if k ∈ l then some (l.count k : Int) else none

/-- The tally once `k` is there one time more. -/
def tallyUp (m : κ → Option Int) (k : κ) : κ → Option Int :=
  Function.update m k (some ((m k).getD 0 + 1))

/-- The tally once `k` is there one time less. -/
def tallyDown (m : κ → Option Int) (k : κ) : κ → Option Int :=
  Function.update m k (if 0 < (m k).getD 1 - 1 then some ((m k).getD 1 - 1) else none)

namespace IsTally

variable {m : κ → Option Int} {l l' : List κ}

theorem nil : IsTally (fun _ : κ => none) [] := fun _ => by simp

theorem perm (h : IsTally m l) (hp : l.Perm l') : IsTally m l' := fun k => by
  rw [h k, hp.count_eq k]
  simp only [hp.mem_iff]

theorem getD_zero (h : IsTally m l) (k : κ) : (m k).getD 0 = l.count k := by
  rw [h k]
  split
  · rfl
  · rename_i hk
    rw [List.count_eq_zero_of_not_mem hk]
    rfl

theorem up (h : IsTally m l) (k : κ) : IsTally (tallyUp m k) (k :: l) := by
  intro j
  by_cases hj : j = k
  · subst hj
    simp [tallyUp, h.getD_zero]
  · have hkj : ¬ k = j := fun e => hj e.symm
    simp [tallyUp, h j, hj, hkj]

theorem down {k : κ} (h : IsTally m (k :: l)) : IsTally (tallyDown m k) l := by
  intro j
  by_cases hj : j = k
  · subst hj
    have hm : m j = some ((l.count j : Int) + 1) := by rw [h j]; simp
    by_cases hl : j ∈ l
    · have hpos : 0 < l.count j := List.count_pos_iff.mpr hl
      simp [tallyDown, hm, hl, hpos]
    · simp [tallyDown, hm, hl, List.count_eq_zero_of_not_mem hl]
  · have hkj : ¬ k = j := fun e => hj e.symm
    simp [tallyDown, h j, hj, hkj]

theorem upOption (h : IsTally m l) (o : Option κ) : IsTally (o.elim m (tallyUp m)) (o.toList ++ l) := by
  cases o with
  | none => exact h
  | some k => exact h.up k

theorem downOption {o : Option κ} (h : IsTally m (o.toList ++ l)) :
    IsTally (o.elim m (tallyDown m)) l := by
  cases o with
  | none => exact h
  | some k => exact h.down

end IsTally

/-! ## The keys of a list's members -/

variable {α : Type*}

omit [DecidableEq κ] in
theorem filterMap_cons_toList (key : α → Option κ) (a : α) (l : List α) :
    (a :: l).filterMap key = (key a).toList ++ l.filterMap key := by
  rw [List.filterMap_cons]
  cases key a <;> rfl

omit [DecidableEq κ] in
/-- The keys of a list, those of one of its members first. -/
theorem filterMap_perm_of_getElem? (key : α → Option κ) {l : List α} {i : Nat} {a : α}
    (h : l[i]? = some a) : (l.filterMap key).Perm ((key a).toList ++ (l.eraseIdx i).filterMap key) := by
  obtain ⟨hi, rfl⟩ := List.getElem?_eq_some_iff.mp h
  rw [← filterMap_cons_toList]
  exact ((List.getElem_cons_eraseIdx_perm hi).filterMap key).symm

omit [DecidableEq κ] in
theorem filterMap_concat_perm (key : α → Option κ) (l : List α) (a : α) :
    ((l ++ [a]).filterMap key).Perm ((key a).toList ++ l.filterMap key) := by
  rw [← filterMap_cons_toList]
  exact (List.perm_append_singleton a l).filterMap key

end Opensteer
