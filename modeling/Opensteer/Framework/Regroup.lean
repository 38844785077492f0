import Mathlib.Data.Nat.Digits.Lemmas
import Mathlib.Tactic.Ring

/-!
# Regrouping digits through a buffer

Digits of `a` bits are put into a buffer (`Carry.take`), and digits of `b` bits
are taken out of it while it holds enough (`Carry.give`); bits that were given
may be cleared or left above the others (`Carry.mask`). What was given with what
the buffer holds spells the number that was taken (`Spells`). So digits that are
regrouped, padded with fewer than `a` bits, and regrouped back come back as they
were (`Spells.regrouped`).
-/

namespace Opensteer.Regroup

/-- The number digits of a base read as, the first the highest. -/
def number (base : Nat) (ds : List Nat) : Nat := Nat.ofDigits base ds.reverse

@[simp] theorem number_nil (base : Nat) : number base [] = 0 := rfl

@[simp] theorem number_concat (base : Nat) (ds : List Nat) (d : Nat) :
    number base (ds ++ [d]) = number base ds * base + d := by
  rw [number, number, List.reverse_append, List.reverse_singleton, List.singleton_append,
    Nat.ofDigits_cons]
  ring

theorem number_inj {base : Nat} (hbase : 1 < base) {ds es : List Nat}
    (hlength : ds.length = es.length) (hds : ∀ d ∈ ds, d < base) (hes : ∀ d ∈ es, d < base)
    (h : number base ds = number base es) : ds = es := by
  have hreverse := Nat.ofDigits_inj_of_len_eq hbase (by simpa using hlength)
    (fun d hd => hds d (List.mem_reverse.mp hd)) (fun d hd => hes d (List.mem_reverse.mp hd)) h
  exact List.reverse_injective hreverse

/-- The digits given, and a buffer whose lowest `bits` bits are still to give. -/
structure Carry where
  out : List Nat := []
  buffer : Nat := 0
  bits : Nat := 0

namespace Carry

def take (a : Nat) (s : Carry) (d : Nat) : Carry := ⟨s.out, s.buffer * 2 ^ a + d, s.bits + a⟩

def give (b : Nat) (s : Carry) : Carry :=
  ⟨s.out ++ [s.buffer / 2 ^ (s.bits - b) % 2 ^ b], s.buffer, s.bits - b⟩

def mask (s : Carry) : Carry := ⟨s.out, s.buffer % 2 ^ s.bits, s.bits⟩

end Carry

variable {a b : Nat} {ds : List Nat} {s t : Carry}

/-- What was given and what is still to give are the digits taken. -/
structure Spells (a b : Nat) (ds : List Nat) (s : Carry) : Prop where
  value : number (2 ^ b) s.out * 2 ^ s.bits + s.buffer % 2 ^ s.bits = number (2 ^ a) ds
  length : b * s.out.length + s.bits = a * ds.length
  out_lt : ∀ d ∈ s.out, d < 2 ^ b

namespace Spells

theorem nil (a b : Nat) : Spells a b [] {} := ⟨by simp, by simp, by simp⟩

theorem take (h : Spells a b ds s) {d : Nat} (hd : d < 2 ^ a) :
    Spells a b (ds ++ [d]) (s.take a d) where
  value := by
    have hmod : (s.buffer * 2 ^ a + d) % 2 ^ (s.bits + a) = s.buffer % 2 ^ s.bits * 2 ^ a + d := by
      rw [pow_add, Nat.mul_comm (2 ^ s.bits), Nat.mod_mul, Nat.mul_add_mod_self_right,
        Nat.mod_eq_of_lt hd, Nat.add_comm (s.buffer * 2 ^ a), Nat.add_mul_div_right _ _ (by positivity),
        Nat.div_eq_of_lt hd, Nat.zero_add]
      ring
    rw [Carry.take, number_concat, ← h.value, hmod, pow_add]
    ring
  length := by
    rw [Carry.take, List.length_append, List.length_singleton, Nat.mul_add, ← h.length]
    ring
  out_lt := h.out_lt

theorem give (h : Spells a b ds s) (hb : b ≤ s.bits) : Spells a b ds (s.give b) where
  value := by
    obtain ⟨n, hn⟩ := Nat.exists_eq_add_of_le hb
    have hvalue := h.value
    rw [hn, Nat.add_comm b n, pow_add, Nat.mod_mul] at hvalue
    rw [Carry.give, number_concat, show s.bits - b = n by omega, ← hvalue]
    ring
  length := by
    have hlength := h.length
    rw [Carry.give, List.length_append, List.length_singleton, Nat.mul_add]
    simp only
    omega
  out_lt := by
    intro d hd
    obtain hd | rfl := by simpa [Carry.give] using hd
    · exact h.out_lt d hd
    · exact Nat.mod_lt _ (by positivity)

theorem mask (h : Spells a b ds s) : Spells a b ds s.mask where
  value := by
    rw [Carry.mask]
    simpa using h.value
  length := h.length
  out_lt := h.out_lt

/-- The rest of the buffer as the high bits of one digit more. -/
theorem pad (h : Spells a b ds s) (hbits : s.bits ≤ b) :
    number (2 ^ b) (s.out ++ [s.buffer % 2 ^ s.bits * 2 ^ (b - s.bits)]) =
      number (2 ^ a) ds * 2 ^ (b - s.bits) := by
  rw [number_concat, ← h.value, Nat.add_mul, Nat.mul_assoc, ← pow_add, Nat.add_sub_cancel' hbits]

/-- Digits that spell a number with fewer than `a` bits of padding, regrouped to digits of `a`
bits while there are enough, are those of the number. -/
theorem regrouped {es : List Nat} {p : Nat} (h : Spells b a es t) (ha : 0 < a)
    (hvalue : number (2 ^ b) es = number (2 ^ a) ds * 2 ^ p)
    (hlength : b * es.length = a * ds.length + p) (hp : p < a) (ht : t.bits < a)
    (hds : ∀ d ∈ ds, d < 2 ^ a) : t.out = ds := by
  have htotal := h.length
  have hout : t.out.length = ds.length := by
    have hmod := congrArg (· / a) (htotal.trans hlength)
    simp only [Nat.mul_add_div ha, Nat.div_eq_of_lt ht, Nat.div_eq_of_lt hp, Nat.add_zero] at hmod
    exact hmod
  have hbits : t.bits = p := by
    rw [hout] at htotal
    omega
  refine number_inj (Nat.one_lt_two_pow (by omega)) hout h.out_lt hds ?_
  have hnumber := h.value
  rw [hvalue, hbits] at hnumber
  have hlt := Nat.mod_lt t.buffer (show 2 ^ p > 0 by positivity)
  calc number (2 ^ a) t.out = (number (2 ^ a) t.out * 2 ^ p + t.buffer % 2 ^ p) / 2 ^ p := by
        rw [Nat.add_comm, Nat.add_mul_div_right _ _ (by positivity), Nat.div_eq_of_lt hlt,
          Nat.zero_add]
    _ = number (2 ^ a) ds := by rw [hnumber, Nat.mul_div_cancel _ (by positivity)]

end Spells

end Opensteer.Regroup
