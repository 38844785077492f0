import Opensteer.Core.Live
import Opensteer.Framework.Feed

/-!
# The tail of a stream

The Runner, the Host and the client keep the newest units of a stream by
`appendLiveStreamTail`. However a text is cut into appends, its tail is the same
(`appendLiveStreamTail_append`), unless two low surrogates in a row stand where
the tail is cut: the first cut drops one of them, and an append that only fills
the tail up again does not look at the other. A stream is then the view of a
feed (`tails`).
-/

namespace Opensteer

/-- Whether the unit there is a low surrogate. -/
def isLowAt (text : Text) (i : Nat) : Bool := (text[i]?).any isLowSurrogate

/-- The text is not cut, or has no two low surrogates in a row. -/
def CutsWell (text : Text) : Prop :=
  text.length ≤ liveStreamTextMaxLength ∨
    ∀ i < text.length, ¬ (isLowAt text i = true ∧ isLowAt text (i + 1) = true)

instance : DecidablePred CutsWell := fun text => by unfold CutsWell; infer_instance

/-- Where the tail of a text that is cut begins. -/
def tailStart (text : Text) : Nat :=
  if isLowAt text (text.length - liveStreamTextMaxLength) then
    text.length - liveStreamTextMaxLength + 1
  else text.length - liveStreamTextMaxLength

theorem tailStart_low {text : Text}
    (h : isLowAt text (text.length - liveStreamTextMaxLength) = true) :
    tailStart text = text.length - liveStreamTextMaxLength + 1 := if_pos h

theorem tailStart_not_low {text : Text}
    (h : isLowAt text (text.length - liveStreamTextMaxLength) = false) :
    tailStart text = text.length - liveStreamTextMaxLength := if_neg (by simp [h])

theorem appendLiveStreamTail_short {tail text : Text}
    (h : (tail ++ text).length ≤ liveStreamTextMaxLength) :
    appendLiveStreamTail tail text = tail ++ text := by
  rw [appendLiveStreamTail, if_pos h]

theorem appendLiveStreamTail_long {tail text : Text}
    (h : liveStreamTextMaxLength < (tail ++ text).length) :
    appendLiveStreamTail tail text = (tail ++ text).drop (tailStart (tail ++ text)) := by
  rw [appendLiveStreamTail, if_neg (Nat.not_le_of_lt h)]
  rfl

theorem isLowAt_append {a b : Text} {i : Nat} (h : i < a.length) :
    isLowAt (a ++ b) i = isLowAt a i := by
  rw [isLowAt, isLowAt, List.getElem?_append_left h]

theorem isLowAt_drop (text : Text) (d i : Nat) : isLowAt (text.drop d) i = isLowAt text (d + i) := by
  rw [isLowAt, isLowAt, List.getElem?_drop]

theorem CutsWell.of_append {a b : Text} (h : CutsWell (a ++ b)) : CutsWell a := by
  rcases h with h | h
  · rw [List.length_append] at h
    exact .inl (by omega)
  · refine .inr fun i hi hlow => ?_
    have hnext : i + 1 < a.length := by
      by_contra hn
      have hnone : a[i + 1]? = none := List.getElem?_eq_none (by omega)
      simp [isLowAt, hnone] at hlow
    refine h i (by rw [List.length_append]; omega) ?_
    rw [isLowAt_append hi, isLowAt_append hnext]
    exact hlow

theorem liveStreamTextMaxLength_pos : 0 < liveStreamTextMaxLength := by decide

/-- A tail carries on what is appended as the whole text would. -/
theorem appendLiveStreamTail_append {a b : Text} (h : CutsWell (a ++ b)) :
    appendLiveStreamTail (appendLiveStreamTail [] a) b = appendLiveStreamTail [] (a ++ b) := by
  by_cases ha : a.length ≤ liveStreamTextMaxLength
  · rw [@appendLiveStreamTail_short [] a ha]
    rfl
  · have ha : liveStreamTextMaxLength < a.length := Nat.lt_of_not_le ha
    have hlen : (a ++ b).length = a.length + b.length := List.length_append
    have hpair := h.resolve_left (by omega)
    have hpos := liveStreamTextMaxLength_pos
    have hcut : (a ++ b).length - liveStreamTextMaxLength =
        a.length - liveStreamTextMaxLength + b.length := by omega
    -- The tail of `a` begins where it is cut, or one further past a low surrogate.
    have hstart : (tailStart a = a.length - liveStreamTextMaxLength ∧
          isLowAt (a ++ b) (a.length - liveStreamTextMaxLength) = false) ∨
        (tailStart a = a.length - liveStreamTextMaxLength + 1 ∧
          isLowAt (a ++ b) (a.length - liveStreamTextMaxLength) = true) := by
      rw [isLowAt_append (by omega)]
      cases hlow : isLowAt a (a.length - liveStreamTextMaxLength) with
      | false => exact .inl ⟨tailStart_not_low hlow, rfl⟩
      | true => exact .inr ⟨tailStart_low hlow, rfl⟩
    have htail : appendLiveStreamTail [] a = a.drop (tailStart a) :=
      @appendLiveStreamTail_long [] a ha
    have hnext : a.drop (tailStart a) ++ b = (a ++ b).drop (tailStart a) := by
      rw [List.drop_append_of_le_length (by omega)]
    have hnlen : (a.drop (tailStart a) ++ b).length = a.length + b.length - tailStart a := by
      rw [hnext, List.length_drop, hlen]
    have hwhole : appendLiveStreamTail [] (a ++ b) = (a ++ b).drop (tailStart (a ++ b)) :=
      @appendLiveStreamTail_long [] (a ++ b) (by rw [List.nil_append]; omega)
    rw [htail, hwhole]
    by_cases hshort : (a.drop (tailStart a) ++ b).length ≤ liveStreamTextMaxLength
    · suffices hcuts : tailStart a = tailStart (a ++ b) by
        rw [appendLiveStreamTail_short hshort, hnext, hcuts]
      rcases hstart with ⟨hs, hlow⟩ | ⟨hs, hlow⟩
      · have hb : b.length = 0 := by omega
        rw [hb, Nat.add_zero] at hcut
        rw [hs, tailStart_not_low (by rw [hcut, hlow]), hcut]
      · rcases (by omega : b.length = 0 ∨ b.length = 1) with hb | hb
        · rw [hb, Nat.add_zero] at hcut
          rw [hs, tailStart_low (by rw [hcut, hlow]), hcut]
        · -- The unit the filled tail begins with follows a low surrogate.
          have hno : isLowAt (a ++ b) (a.length - liveStreamTextMaxLength + 1) = false := by
            simpa only [hlow, true_and, Bool.not_eq_true] using
              hpair (a.length - liveStreamTextMaxLength) (by omega)
          rw [hb] at hcut
          rw [hs, tailStart_not_low (by rw [hcut, hno]), hcut]
    · have hd : tailStart a + (((a ++ b).drop (tailStart a)).length - liveStreamTextMaxLength) =
          (a ++ b).length - liveStreamTextMaxLength := by
        rw [List.length_drop]
        omega
      have hlow := isLowAt_drop (a ++ b) (tailStart a)
        (((a ++ b).drop (tailStart a)).length - liveStreamTextMaxLength)
      rw [hd] at hlow
      have hsame : tailStart a + tailStart ((a ++ b).drop (tailStart a)) = tailStart (a ++ b) := by
        cases hw : isLowAt (a ++ b) ((a ++ b).length - liveStreamTextMaxLength) with
        | false =>
          rw [tailStart_not_low hw, tailStart_not_low (hlow.trans hw), hd]
        | true =>
          rw [tailStart_low hw, tailStart_low (hlow.trans hw), ← Nat.add_assoc, hd]
      rw [appendLiveStreamTail_long (Nat.lt_of_not_le hshort), hnext, List.drop_drop, hsame]

/-- Streams as views of a feed. -/
def tails : Feed.Summary UInt16 Text where
  empty := []
  push := appendLiveStreamTail
  Fits := CutsWell
  fits_of_append _ _ h := h.of_append
  push_push _ _ h := appendLiveStreamTail_append h

end Opensteer
