import Opensteer.Core.Coding

/-!
# Well-formed texts

`toWellFormed` puts U+FFFD for each surrogate in no pair. Where no pair lies across two texts
(`Apart`), it works on each of them (`toWellFormed_append`), so that a text's parts are well formed
where it is.
-/

namespace Opensteer

namespace Text

def toWellFormed : Text → Text
  | [] => []
  | [unit] => if isHighSurrogate unit || isLowSurrogate unit then [0xfffd] else [unit]
  | high :: low :: rest =>
    if isHighSurrogate high && isLowSurrogate low then high :: low :: toWellFormed rest
    else
      (if isHighSurrogate high || isLowSurrogate high then 0xfffd else high) ::
        toWellFormed (low :: rest)

def isWellFormed (text : Text) : Bool := toWellFormed text = text

/-- No surrogate pair lies across the two. -/
def Apart (text rest : Text) : Prop :=
  ¬((text.getLast?).any isHighSurrogate = true ∧ (rest.head?).any isLowSurrogate = true)

theorem not_isLow_of_isHigh {unit : UInt16} (h : isHighSurrogate unit = true) :
    isLowSurrogate unit = false := by
  simp only [isHighSurrogate, Bool.and_eq_true, decide_eq_true_eq] at h
  simp only [isLowSurrogate, Bool.and_eq_false_iff, decide_eq_false_iff_not]
  exact .inl fun hle => absurd (UInt16.le_trans hle h.2) (by decide)

theorem apart_of_head {text rest : Text} (h : (rest.head?).any isLowSurrogate = false) :
    Apart text rest := by
  rintro ⟨-, hlow⟩
  rw [h] at hlow
  cases hlow

theorem apart_of_last {text rest : Text} (h : (text.getLast?).any isHighSurrogate = false) :
    Apart text rest := by
  rintro ⟨hhigh, -⟩
  rw [h] at hhigh
  cases hhigh

theorem Apart.of_cons {unit next : UInt16} {text rest : Text} (h : Apart (unit :: next :: text) rest) :
    Apart (next :: text) rest := by
  rwa [Apart, List.getLast?_cons_cons] at h

theorem Apart.of_pair {high low : UInt16} {text rest : Text} (h : Apart (high :: low :: text) rest) :
    Apart text rest := by
  cases text with
  | nil => exact apart_of_last rfl
  | cons unit text => exact h.of_cons.of_cons

@[simp] theorem length_toWellFormed (text : Text) : (toWellFormed text).length = text.length := by
  fun_induction toWellFormed text <;> simp_all

theorem toWellFormed_cons {unit : UInt16} {rest : Text} (h : Apart [unit] rest) :
    toWellFormed (unit :: rest) = toWellFormed [unit] ++ toWellFormed rest := by
  cases rest with
  | nil => rw [show toWellFormed [] = [] from rfl, List.append_nil]
  | cons low rest =>
    have hpair : (isHighSurrogate unit && isLowSurrogate low) = false := by
      simpa [Apart] using h
    simp only [toWellFormed, hpair]
    by_cases hunit : (isHighSurrogate unit || isLowSurrogate unit) = true <;> simp [hunit]

theorem toWellFormed_append {text rest : Text} (h : Apart text rest) :
    toWellFormed (text ++ rest) = toWellFormed text ++ toWellFormed rest := by
  fun_induction toWellFormed text with
  | case1 => rfl
  | case2 unit hunit => rw [List.singleton_append, toWellFormed_cons h, toWellFormed, if_pos hunit]
  | case3 unit hunit => rw [List.singleton_append, toWellFormed_cons h, toWellFormed, if_neg hunit]
  | case4 high low text hpair ih =>
    rw [List.cons_append, List.cons_append, toWellFormed, if_pos hpair, ih h.of_pair]
    rfl
  | case5 high low text hpair ih =>
    rw [List.cons_append, List.cons_append, toWellFormed, if_neg hpair, ← List.cons_append, ih h.of_cons]
    rfl

theorem isWellFormed_iff {text : Text} : isWellFormed text = true ↔ toWellFormed text = text := by
  simp [isWellFormed]

/-- The parts of a well-formed text are, where no pair lies across them. -/
theorem toWellFormed_of_append {text rest : Text} (h : Apart text rest)
    (hwhole : toWellFormed (text ++ rest) = text ++ rest) :
    toWellFormed text = text ∧ toWellFormed rest = rest := by
  rw [toWellFormed_append h] at hwhole
  exact List.append_inj hwhole (length_toWellFormed text)

theorem toWellFormed_plain {unit : UInt16}
    (h : (isHighSurrogate unit || isLowSurrogate unit) = false) (rest : Text) :
    toWellFormed (unit :: rest) = unit :: toWellFormed rest := by
  rw [toWellFormed_cons (apart_of_last (by simp_all)), toWellFormed, if_neg (by simp [h])]
  rfl

theorem toWellFormed_toWellFormed (text : Text) :
    toWellFormed (toWellFormed text) = toWellFormed text := by
  fun_induction toWellFormed text with
  | case1 => rfl
  | case2 unit hunit => rfl
  | case3 unit hunit => rw [toWellFormed, if_neg hunit]
  | case4 high low text hpair ih => rw [toWellFormed, if_pos hpair, ih]
  | case5 high low text hpair ih =>
    split
    · rw [toWellFormed_plain rfl, ih]
    · rename_i hunit
      rw [toWellFormed_plain (eq_false_of_ne_true hunit), ih]

/-- Before a low surrogate of a well-formed text is a high one. -/
theorem isHigh_of_isLow {text rest : Text} {unit : UInt16} (hlow : isLowSurrogate unit = true)
    (hwhole : toWellFormed (text ++ unit :: rest) = text ++ unit :: rest) :
    (text.getLast?).any isHighSurrogate = true := by
  by_contra hno
  have happart : Apart text (unit :: rest) := apart_of_last (eq_false_of_ne_true hno)
  have hrest := (toWellFormed_of_append happart hwhole).2
  have hunit : isHighSurrogate unit = false := by
    by_contra hhigh
    rw [not_isLow_of_isHigh (by simpa using hhigh)] at hlow
    cases hlow
  rw [toWellFormed_cons (apart_of_last (by simpa using hunit)), toWellFormed,
    if_pos (by simp [hlow]), List.singleton_append] at hrest
  rw [← (List.cons.inj hrest).1] at hlow
  exact absurd hlow (by decide)

theorem isWellFormed_append {text rest : Text} (h : Apart text rest) :
    isWellFormed (text ++ rest) = (isWellFormed text && isWellFormed rest) := by
  rw [Bool.eq_iff_iff, Bool.and_eq_true, isWellFormed_iff, isWellFormed_iff, isWellFormed_iff]
  refine ⟨toWellFormed_of_append h, fun ⟨htext, hrest⟩ => ?_⟩
  rw [toWellFormed_append h, htext, hrest]

theorem isWellFormed_cons {unit : UInt16} (h : (isHighSurrogate unit || isLowSurrogate unit) = false)
    (rest : Text) : isWellFormed (unit :: rest) = isWellFormed rest := by
  rw [Bool.eq_iff_iff, isWellFormed_iff, isWellFormed_iff, toWellFormed_plain h, List.cons.injEq]
  exact ⟨And.right, And.intro rfl⟩

theorem isWellFormed_of_plain {text : Text}
    (h : ∀ unit ∈ text, (isHighSurrogate unit || isLowSurrogate unit) = false) : isWellFormed text = true := by
  induction text with
  | nil => rfl
  | cons unit text ih =>
    obtain ⟨hunit, htext⟩ := List.forall_mem_cons.mp h
    rw [isWellFormed_cons hunit, ih htext]

end Text

end Opensteer
