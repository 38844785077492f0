import Mathlib.Data.List.Basic
import Mathlib.Data.List.Infix
import Mathlib.Data.List.TakeDrop

/-!
# Splices

A list with a part of it replaced (`splice`), and a list in two at a caret (`Zipper`), where the part to
be replaced is named by what stands of it before the caret and what stands of it after. To take that
part away is to keep what stands around it (`Zipper.without_around`), and to put a wider part back with
its ends as they were is to splice the part itself (`splice_widen`).
-/

namespace Opensteer

variable {α : Type*} {l m : List α} {start stop start' stop' caret : Nat}

/-- A list with `m` in place of what stands from `start` to `stop`. -/
def splice (l : List α) (start stop : Nat) (m : List α) : List α := l.take start ++ m ++ l.drop stop

theorem take_append_drop_take (l : List α) (h : start ≤ stop) : l.take start ++ (l.take stop).drop start = l.take stop := by
  conv_rhs => rw [← List.take_append_drop start (l.take stop), List.take_take, min_eq_left h]

theorem drop_take_append_drop (l : List α) (h : start ≤ stop) : (l.take stop).drop start ++ l.drop stop = l.drop start := by
  conv_rhs => rw [← List.take_append_drop stop l, List.drop_append, List.drop_drop]
  refine congrArg ((l.take stop).drop start ++ ·) ?_
  rcases le_total stop l.length with hs | hs
  · rw [List.length_take, min_eq_left hs, Nat.sub_eq_zero_of_le h, Nat.add_zero]
  · rw [List.drop_eq_nil_of_le hs, List.drop_eq_nil_of_le (by omega)]

/-- A wider part, its ends put back. -/
theorem splice_widen (l m : List α) (hstart : start ≤ start') (hstop : stop' ≤ stop) :
    splice l start stop ((l.take start').drop start ++ m ++ (l.take stop).drop stop') = splice l start' stop' m := by
  unfold splice
  rw [← List.append_assoc, ← List.append_assoc, take_append_drop_take l hstart, List.append_assoc (_ ++ m),
    drop_take_append_drop l hstop]

/-- A list in two. -/
structure Zipper (α : Type*) where
  left : List α
  right : List α
deriving DecidableEq

namespace Zipper

/-- A list in two at a caret. -/
def split (l : List α) (caret : Nat) : Zipper α := ⟨l.take caret, l.drop caret⟩

variable [DecidableEq α]

/-- What is left where a part is taken away that stands around the caret, if it does. -/
def without (z : Zipper α) (before after : List α) : Option (Zipper α) :=
  if before <:+ z.left ∧ after <+: z.right then
    some ⟨z.left.take (z.left.length - before.length), z.right.drop after.length⟩
  else none

/-- The part from `start` to `stop`, named by its two sides of the caret. -/
theorem without_around (l : List α) (hstart : start ≤ caret) (hlength : start ≤ l.length) (hstop : caret ≤ stop) :
    (split l caret).without ((l.take caret).drop start) ((l.take stop).drop caret) = some ⟨l.take start, l.drop stop⟩ := by
  have hafter : (l.take stop).drop caret <+: l.drop caret :=
    ⟨l.drop stop, drop_take_append_drop l hstop⟩
  have hleft : (l.take caret).length - ((l.take caret).drop start).length = start := by
    rw [List.length_drop, List.length_take]
    omega
  have hright : (l.drop caret).drop ((l.take stop).drop caret).length = l.drop stop := by
    rw [List.drop_drop, List.length_drop, List.length_take]
    rcases le_total stop l.length with hs | hs
    · rw [min_eq_left hs, Nat.add_sub_cancel' hstop]
    · rw [List.drop_eq_nil_of_le hs, List.drop_eq_nil_of_le (by omega)]
  unfold without split
  rw [if_pos ⟨List.drop_suffix _ _, hafter⟩, hleft, hright, List.take_take, min_eq_left hstart]

end Zipper

end Opensteer
