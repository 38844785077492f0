import Mathlib.Data.Nat.Digits.Lemmas

/-!
# Decimal spellings

A positive number has one spelling in decimal digits that starts with none that
is zero (`spell`): reading a spelling and spelling what is read are inverse
(`value_spell`, `spell_value`), and the number of digits bounds the number
(`length_spell_le`). Digits are UTF-16 units.
-/

namespace Opensteer.Decimal

def isDigit (u : UInt16) : Bool := 48 ≤ u.toNat && u.toNat ≤ 57

def ofDigit (d : Nat) : UInt16 := UInt16.ofNat (48 + d)

/-- The number decimal digits read as. -/
def value (ds : List UInt16) : Nat := ds.foldl (fun n u => 10 * n + (u.toNat - 48)) 0

/-- Digits, the first of which is not zero. -/
def IsPositive : List UInt16 → Prop
  | [] => False
  | u :: ds => isDigit u ∧ u.toNat ≠ 48 ∧ ∀ d ∈ ds, isDigit d

instance : DecidablePred IsPositive
  | [] => inferInstanceAs (Decidable False)
  | _ :: ds => @instDecidableAnd _ _ inferInstance (@instDecidableAnd _ _ inferInstance (List.decidableBAll _ ds))

/-- The spelling of a positive number. -/
def spell (n : Nat) : List UInt16 := ((Nat.digits 10 n).map ofDigit).reverse

theorem toNat_ofDigit {d : Nat} (h : d < 10) : (ofDigit d).toNat = 48 + d := by
  rw [ofDigit, UInt16.toNat_ofNat']
  omega

theorem isDigit_ofDigit {d : Nat} (h : d < 10) : isDigit (ofDigit d) := by
  simp only [isDigit, toNat_ofDigit h, Bool.and_eq_true, decide_eq_true_eq]
  omega

theorem ofDigit_toNat {u : UInt16} (h : isDigit u) : ofDigit (u.toNat - 48) = u := by
  simp only [isDigit, Bool.and_eq_true, decide_eq_true_eq] at h
  rw [ofDigit, Nat.add_sub_cancel' h.1, UInt16.ofNat_toNat]

theorem value_eq_ofDigits (ds : List UInt16) :
    value ds = Nat.ofDigits 10 (ds.map fun u => u.toNat - 48).reverse := by
  have hfold : ∀ n, ds.foldl (fun n u => 10 * n + (u.toNat - 48)) n =
      Nat.ofDigits 10 ((ds.map fun u => u.toNat - 48).reverse ++ [n]) := by
    induction ds with
    | nil => simp [Nat.ofDigits_singleton]
    | cons u ds ih =>
      intro n
      rw [List.foldl_cons, ih, List.map_cons, List.reverse_cons, List.append_assoc,
        Nat.ofDigits_append, Nat.ofDigits_append]
      simp [Nat.ofDigits_cons]
      ring
  rw [value, hfold, Nat.ofDigits_append]
  simp [Nat.ofDigits_singleton]

theorem value_spell (n : Nat) : value (spell n) = n := by
  have hdigits : ((spell n).map fun u => u.toNat - 48).reverse = Nat.digits 10 n := by
    rw [spell, List.map_reverse, List.reverse_reverse, List.map_map]
    refine (List.map_congr_left fun d hd => ?_).trans (List.map_id _)
    rw [Function.comp_apply, toNat_ofDigit (Nat.digits_lt_base (by omega) hd)]
    exact Nat.add_sub_cancel_left ..
  rw [value_eq_ofDigits, hdigits, Nat.ofDigits_digits]

theorem isPositive_spell {n : Nat} (h : 0 < n) : IsPositive (spell n) := by
  have hne : n ≠ 0 := by omega
  have hlast := Nat.getLast_digit_ne_zero 10 hne
  have hall : ∀ d ∈ Nat.digits 10 n, d < 10 := fun d hd => Nat.digits_lt_base (by omega) hd
  rcases List.eq_nil_or_concat (Nat.digits 10 n) with hnil | ⟨init, d, hds⟩
  · exact absurd hnil (Nat.digits_ne_nil_iff_ne_zero.mpr hne)
  · simp only [hds, List.concat_eq_append, List.getLast_append_singleton] at hlast hall
    have hd : d < 10 := hall d (by simp)
    rw [spell, hds, List.concat_eq_append, List.map_append, List.reverse_append]
    refine ⟨isDigit_ofDigit hd, ?_, fun u hu => ?_⟩
    · rw [toNat_ofDigit hd]
      omega
    · obtain ⟨d', hd', rfl⟩ := List.mem_map.mp (List.mem_reverse.mp hu)
      exact isDigit_ofDigit (hall d' (by simp [hd']))

theorem spell_value {ds : List UInt16} (h : IsPositive ds) : spell (value ds) = ds ∧ 0 < value ds := by
  cases ds with
  | nil => exact absurd h id
  | cons u ds =>
    obtain ⟨hu, hzero, hds⟩ := h
    have hall : ∀ d ∈ u :: ds, isDigit d := List.forall_mem_cons.mpr ⟨hu, hds⟩
    have hlt : ∀ d ∈ ((u :: ds).map fun u => u.toNat - 48).reverse, d < 10 := by
      intro d hd
      obtain ⟨v, hv, rfl⟩ := List.mem_map.mp (List.mem_reverse.mp hd)
      have := hall v hv
      simp only [isDigit, Bool.and_eq_true, decide_eq_true_eq] at this
      omega
    have hfirst : u.toNat - 48 ≠ 0 := by
      simp only [isDigit, Bool.and_eq_true, decide_eq_true_eq] at hu
      omega
    have hdigits : Nat.digits 10 (value (u :: ds)) =
        ((u :: ds).map fun u => u.toNat - 48).reverse := by
      rw [value_eq_ofDigits]
      exact Nat.digits_ofDigits 10 (by omega) _ hlt fun _ => by simpa using hfirst
    constructor
    · rw [spell, hdigits, List.map_reverse, List.reverse_reverse, List.map_map]
      refine (List.map_congr_left fun v hv => ?_).trans (List.map_id _)
      exact ofDigit_toNat (hall v hv)
    · by_contra hnot
      have hnil : value (u :: ds) = 0 := by omega
      rw [hnil] at hdigits
      simp at hdigits

/-- The digits of a number from the first, zero having one. -/
def digitsOf (n : Nat) : List Nat := if n = 0 then [0] else (Nat.digits 10 n).reverse

theorem digitsOf_ne_nil (n : Nat) : digitsOf n ≠ [] := by
  unfold digitsOf
  split
  · simp
  · simpa [Nat.digits_eq_nil_iff_eq_zero] using ‹¬n = 0›

theorem lt_of_mem_digitsOf {n d : Nat} (h : d ∈ digitsOf n) : d < 10 := by
  unfold digitsOf at h
  split at h
  · rw [List.mem_singleton.mp h]
    decide
  · exact Nat.digits_lt_base (by decide) (List.mem_reverse.mp h)

theorem foldl_digitsOf (n : Nat) : (digitsOf n).foldl (fun n d => n * 10 + d) 0 = n := by
  unfold digitsOf
  split
  · rename_i h
    rw [h]
    rfl
  · rw [List.foldl_reverse]
    have hfold : ∀ ds : List Nat, ds.foldr (fun d n => n * 10 + d) 0 = Nat.ofDigits 10 ds := by
      intro ds
      induction ds with
      | nil => rfl
      | cons d ds ih =>
        rw [List.foldr_cons, ih, Nat.ofDigits_cons]
        omega
    rw [hfold, Nat.ofDigits_digits]

/-- Only zero starts with a zero. -/
theorem head_digitsOf {n : Nat} (h : n ≠ 0) : (digitsOf n).head? ≠ some 0 := by
  unfold digitsOf
  rw [if_neg h, List.head?_reverse, List.getLast?_eq_some_getLast (Nat.digits_ne_nil_iff_ne_zero.mpr h)]
  exact fun hzero => Nat.getLast_digit_ne_zero 10 h (Option.some.inj hzero)

theorem length_digitsOf_le {n k : Nat} (hk : 0 < k) : (digitsOf n).length ≤ k ↔ n < 10 ^ k := by
  unfold digitsOf
  split
  · rename_i h
    subst h
    exact iff_of_true hk (Nat.pow_pos (by decide))
  · rw [List.length_reverse, Nat.digits_length_le_iff (by decide)]

theorem length_spell_le {n k : Nat} : (spell n).length ≤ k ↔ n < 10 ^ k := by
  rw [spell, List.length_reverse, List.length_map, Nat.digits_length_le_iff (by omega)]

end Opensteer.Decimal
