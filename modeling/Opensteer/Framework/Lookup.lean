import Mathlib.Data.List.Basic
import Mathlib.Data.List.Nodup
import Mathlib.Logic.Function.Basic

/-!
# Lookup tables

`new Map(list.map((a) => [key(a), a]))`: of the elements with one key, the last.
-/

namespace Opensteer

variable {α κ : Type*} [DecidableEq κ] {key : α → κ} {l l' : List α} {a : α} {k : κ}

def lookupBy (key : α → κ) (l : List α) (k : κ) : Option α := l.reverse.find? fun a => key a = k

theorem mem_of_lookupBy (h : lookupBy key l k = some a) : a ∈ l :=
  List.mem_reverse.mp (List.mem_of_find?_eq_some h)

theorem key_of_lookupBy (h : lookupBy key l k = some a) : key a = k := by
  simpa using List.find?_some h

theorem isSome_lookupBy : (lookupBy key l k).isSome ↔ k ∈ l.map key := by
  simp [lookupBy, List.find?_isSome]

theorem lookupBy_eq_none : lookupBy key l k = none ↔ ∀ a ∈ l, key a ≠ k := by
  simp [lookupBy]

/-- Where keys differ, an element is found by its key. -/
theorem lookupBy_eq_some (hkeys : (l.map key).Nodup) : lookupBy key l k = some a ↔ a ∈ l ∧ key a = k := by
  refine ⟨fun h => ⟨mem_of_lookupBy h, key_of_lookupBy h⟩, ?_⟩
  rintro ⟨ha, rfl⟩
  cases hfind : lookupBy key l (key a) with
  | none => exact (lookupBy_eq_none.mp hfind a ha rfl).elim
  | some found => rw [List.inj_on_of_nodup_map hkeys (mem_of_lookupBy hfind) ha (key_of_lookupBy hfind)]

/-- Where keys differ, the order of the elements does not matter. -/
theorem lookupBy_perm (hkeys : (l.map key).Nodup) (h : l'.Perm l) : lookupBy key l' = lookupBy key l := by
  funext k
  ext a
  rw [lookupBy_eq_some hkeys, lookupBy_eq_some ((h.map key).nodup_iff.mpr hkeys), h.mem_iff]

theorem lookupBy_concat : lookupBy key (l ++ [a]) k = if key a = k then some a else lookupBy key l k := by
  unfold lookupBy
  rw [List.reverse_concat, List.find?_cons]
  by_cases h : key a = k <;> simp [h]

/-- Where keys differ, the element at one place is found by its key, and the others by theirs. -/
theorem lookupBy_middle (hkeys : ((l ++ a :: l').map key).Nodup) :
    lookupBy key (l ++ a :: l') = Function.update (lookupBy key (l ++ l')) (key a) (some a) ∧
      lookupBy key (l ++ l') (key a) = none := by
  have hperm : (l ++ a :: l').Perm ((l ++ l') ++ [a]) := List.perm_middle.trans (List.perm_append_singleton _ _).symm
  have hkeys' := (hperm.map key).nodup_iff.mp hkeys
  constructor
  · funext k
    rw [lookupBy_perm hkeys' hperm, lookupBy_concat, Function.update_apply]
    by_cases h : key a = k
    · rw [if_pos h, if_pos h.symm]
    · rw [if_neg h, if_neg (Ne.symm h)]
  · refine lookupBy_eq_none.mpr fun b hb heq => ?_
    rw [List.map_append, List.map_singleton, List.nodup_append] at hkeys'
    exact hkeys'.2.2 (key b) (List.mem_map_of_mem hb) (key a) (by simp) heq

end Opensteer
