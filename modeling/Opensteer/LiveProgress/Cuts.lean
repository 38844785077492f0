import Opensteer.LiveProgress.Streams

/-!
# However a stream is cut

What is kept of a text that comes in appends begins where the tail of the whole text does, or at a low
surrogate that an append of one unit left there (`foldl_starts`). So all ways of cutting a text keep one
tail, and one that begins with no half of a pair, exactly where no two low surrogates in a row stand at the
two places where it can be cut (`appendLiveStreamTail_cut`).
-/

namespace Opensteer.LiveStreamTail

/-- A suffix of a text that fits, and begins with no low surrogate where something is dropped. -/
structure IsTail (text tail : Text) : Prop where
  suffix : tail <:+ text
  fits : tail.length ≤ liveStreamTextMaxLength
  begins : tail ≠ text → isLowAt tail 0 = false

/-- However a text is cut into appends, one tail of it is kept, and none is longer by two. -/
def KeepsTail (text : Text) : Prop :=
  ∃ tail, (∀ appends : List Text, appends.flatten = text → appends.foldl appendLiveStreamTail [] = tail) ∧
    IsTail text tail ∧ ∀ longer, IsTail text longer → longer.length ≤ tail.length + 1

/-- No two low surrogates in a row stand where the tail is cut, or one unit before. -/
def CutsClean (text : Text) : Prop :=
  liveStreamTextMaxLength < text.length →
    ¬(isLowAt text (text.length - liveStreamTextMaxLength) = true ∧
        isLowAt text (text.length - liveStreamTextMaxLength + 1) = true) ∧
      (1 < text.length - liveStreamTextMaxLength →
        ¬(isLowAt text (text.length - liveStreamTextMaxLength - 1) = true ∧
          isLowAt text (text.length - liveStreamTextMaxLength) = true))

/-- Where what is kept of a text can begin: where its tail does, or at the second of two low surrogates. -/
def Starts (text : Text) (start : Nat) : Prop :=
  if text.length ≤ liveStreamTextMaxLength then start = 0
  else start = tailStart text ∨ (start = text.length - liveStreamTextMaxLength ∧ 1 < start ∧
    isLowAt text (start - 1) = true ∧ isLowAt text start = true)

theorem starts_short {text : Text} (h : text.length ≤ liveStreamTextMaxLength) : Starts text 0 := by
  rw [Starts, if_pos h]

theorem starts_tail {text : Text} (h : liveStreamTextMaxLength < text.length) : Starts text (tailStart text) := by
  rw [Starts, if_neg (Nat.not_le_of_lt h)]
  exact .inl rfl

theorem tailStart_cases (text : Text) :
    (tailStart text = text.length - liveStreamTextMaxLength ∧
      isLowAt text (text.length - liveStreamTextMaxLength) = false) ∨
    (tailStart text = text.length - liveStreamTextMaxLength + 1 ∧
      isLowAt text (text.length - liveStreamTextMaxLength) = true) := by
  cases hlow : isLowAt text (text.length - liveStreamTextMaxLength) with
  | false => exact .inl ⟨tailStart_not_low hlow, rfl⟩
  | true => exact .inr ⟨tailStart_low hlow, rfl⟩

/-- The tail of what is left of a text is the tail of the text. -/
theorem tailStart_drop {text : Text} {start : Nat}
    (h : start ≤ text.length - liveStreamTextMaxLength) :
    start + tailStart (text.drop start) = tailStart text := by
  have hcut : start + ((text.drop start).length - liveStreamTextMaxLength) =
      text.length - liveStreamTextMaxLength := by
    rw [List.length_drop]
    omega
  have hlow := isLowAt_drop text start ((text.drop start).length - liveStreamTextMaxLength)
  rw [hcut] at hlow
  rcases tailStart_cases text with ⟨hstart, hunit⟩ | ⟨hstart, hunit⟩
  · rw [hstart, tailStart_not_low (hlow.trans hunit), hcut]
  · rw [hstart, tailStart_low (hlow.trans hunit), ← Nat.add_assoc, hcut]

/-- What is kept of a text is kept on an append. -/
theorem starts_append {a b : Text} {start : Nat} (h : Starts a start) :
    ∃ start', appendLiveStreamTail (a.drop start) b = (a ++ b).drop start' ∧ Starts (a ++ b) start' := by
  have hlen : (a ++ b).length = a.length + b.length := List.length_append
  have hpos := liveStreamTextMaxLength_pos
  have hle : start ≤ a.length := by
    rw [Starts] at h
    split at h
    · omega
    · rcases tailStart_cases a with ⟨htail, -⟩ | ⟨htail, -⟩ <;> omega
  have hnext : a.drop start ++ b = (a ++ b).drop start := (List.drop_append_of_le_length hle).symm
  have hnextLen : (a.drop start ++ b).length = a.length + b.length - start := by
    rw [hnext, List.length_drop, hlen]
  by_cases hshort : (a.drop start ++ b).length ≤ liveStreamTextMaxLength
  · refine ⟨start, by rw [appendLiveStreamTail_short hshort, hnext], ?_⟩
    rw [Starts] at h
    split at h
    · subst h
      exact starts_short (by omega)
    · rename_i ha
      rcases Nat.eq_zero_or_pos b.length with hb | hb
      · rw [List.length_eq_zero_iff.mp hb, List.append_nil, Starts, if_neg ha]
        exact h
      · -- The append fills up the tail again that a low surrogate was cut off from.
        rcases tailStart_cases a with ⟨htail, hlow⟩ | ⟨htail, hlow⟩
        · omega
        · have hstart : start = a.length - liveStreamTextMaxLength + 1 := by
            rcases h with h | h <;> omega
          have hcut : (a ++ b).length - liveStreamTextMaxLength = start := by omega
          have hbefore : isLowAt (a ++ b) (start - 1) = true := by
            rw [isLowAt_append (by omega), hstart, Nat.add_sub_cancel]
            exact hlow
          rw [Starts, if_neg (by omega), hcut]
          cases hunit : isLowAt (a ++ b) start with
          | false =>
            left
            rw [tailStart_not_low (by rw [hcut, hunit]), hcut]
          | true => exact .inr ⟨rfl, by omega, hbefore, rfl⟩
  · refine ⟨start + tailStart ((a ++ b).drop start), ?_, ?_⟩
    · rw [appendLiveStreamTail_long (Nat.lt_of_not_le hshort), hnext, List.drop_drop]
    · rw [tailStart_drop (by omega)]
      exact starts_tail (by omega)

/-- Whatever is appended, what is kept is what one of the starts leaves of the text. -/
theorem foldl_starts (appends : List Text) :
    ∃ start, appends.foldl appendLiveStreamTail [] = appends.flatten.drop start ∧
      Starts appends.flatten start := by
  suffices h : ∀ (text : Text) (start : Nat), Starts text start →
      ∃ start', appends.foldl appendLiveStreamTail (text.drop start) = (text ++ appends.flatten).drop start' ∧
        Starts (text ++ appends.flatten) start' by
    exact h [] 0 (starts_short (Nat.zero_le _))
  induction appends with
  | nil =>
    intro text start h
    rw [List.flatten_nil, List.append_nil]
    exact ⟨start, rfl, h⟩
  | cons append appends ih =>
    intro text start h
    obtain ⟨next, hnext, hstarts⟩ := starts_append (b := append) h
    rw [List.foldl_cons, hnext, List.flatten_cons, ← List.append_assoc]
    exact ih (text ++ append) next hstarts

/-- Where the tail is cut cleanly, it is kept however the text is cut. -/
theorem keepsTail_of_cutsClean {text : Text} (h : CutsClean text) : KeepsTail text := by
  refine ⟨appendLiveStreamTail [] text, ?_, ⟨?_, ?_, ?_⟩, ?_⟩
  · rintro appends rfl
    obtain ⟨start, hfold, hstarts⟩ := foldl_starts appends
    rw [hfold]
    rw [Starts] at hstarts
    split at hstarts
    · rename_i hshort
      rw [hstarts, List.drop_zero, appendLiveStreamTail_short hshort, List.nil_append]
    · rename_i hshort
      have hlong := Nat.lt_of_not_le hshort
      rcases hstarts with htail | ⟨hcut, hone, hbefore, hlow⟩
      · rw [htail]
        exact (@appendLiveStreamTail_long [] _ hlong).symm
      · obtain ⟨-, hclean⟩ := h hlong
        rw [hcut] at hone hbefore hlow
        exact absurd ⟨hbefore, hlow⟩ (hclean hone)
  all_goals by_cases hshort : text.length ≤ liveStreamTextMaxLength
  · rw [@appendLiveStreamTail_short [] text hshort]
    exact List.suffix_refl text
  · rw [@appendLiveStreamTail_long [] text (Nat.lt_of_not_le hshort)]
    exact List.drop_suffix _ text
  · rw [@appendLiveStreamTail_short [] text hshort]
    exact hshort
  · rw [@appendLiveStreamTail_long [] text (Nat.lt_of_not_le hshort), List.nil_append, List.length_drop]
    rcases tailStart_cases text with ⟨htail, -⟩ | ⟨htail, -⟩ <;> omega
  · rw [@appendLiveStreamTail_short [] text hshort]
    exact fun hne => absurd rfl hne
  · rw [@appendLiveStreamTail_long [] text (Nat.lt_of_not_le hshort), List.nil_append]
    intro _
    rw [isLowAt_drop, Nat.add_zero]
    rcases tailStart_cases text with ⟨htail, hlow⟩ | ⟨htail, hlow⟩
    · rw [htail, hlow]
    · rw [htail, ← Bool.not_eq_true]
      exact fun hnext => (h (Nat.lt_of_not_le hshort)).1 ⟨hlow, hnext⟩
  · rw [@appendLiveStreamTail_short [] text hshort]
    exact fun longer hlonger => Nat.le_succ_of_le hlonger.suffix.length_le
  · rw [@appendLiveStreamTail_long [] text (Nat.lt_of_not_le hshort), List.nil_append, List.length_drop]
    intro longer hlonger
    have := hlonger.fits
    rcases tailStart_cases text with ⟨htail, -⟩ | ⟨htail, -⟩ <;> omega

/-- Where it is not cut cleanly, an append of the whole text or of all but its last unit leaves a low
surrogate at the beginning. -/
theorem cutsClean_of_keepsTail {text : Text} (h : KeepsTail text) : CutsClean text := by
  intro hlong
  obtain ⟨tail, hfold, htail, -⟩ := h
  have hbegins : ∀ start, 0 < start → tail = text.drop start → isLowAt text start = false := by
    rintro start hstart rfl
    have hne : text.drop start ≠ text := by
      intro heq
      have := congrArg List.length heq
      rw [List.length_drop] at this
      omega
    have := htail.begins hne
    rwa [isLowAt_drop, Nat.add_zero] at this
  constructor
  · rintro ⟨hlow, hnext⟩
    have hwhole := hfold [text] (by simp)
    rw [List.foldl_cons, List.foldl_nil, @appendLiveStreamTail_long [] text hlong, List.nil_append,
      tailStart_low hlow] at hwhole
    exact Bool.false_ne_true ((hbegins _ (Nat.succ_pos _) hwhole.symm).symm.trans hnext)
  · rintro hone ⟨hbefore, hlow⟩
    -- All but the last unit leaves a tail that is one unit short, and the last unit fills it up.
    have hpos := liveStreamTextMaxLength_pos
    have hinit : (text.take (text.length - 1)).length = text.length - 1 := by
      rw [List.length_take]
      omega
    have hindex : text.length - 1 - liveStreamTextMaxLength = text.length - liveStreamTextMaxLength - 1 := by
      omega
    have hstart : tailStart (text.take (text.length - 1)) = text.length - liveStreamTextMaxLength := by
      rw [tailStart_low, hinit]
      · omega
      · rw [hinit, hindex, ← hbefore, isLowAt, isLowAt, List.getElem?_take_of_lt (by omega)]
    have hnext : (text.take (text.length - 1)).drop (text.length - liveStreamTextMaxLength) ++
        text.drop (text.length - 1) = text.drop (text.length - liveStreamTextMaxLength) := by
      rw [← List.drop_append_of_le_length (by omega), List.take_append_drop]
    have hcut := hfold [text.take (text.length - 1), text.drop (text.length - 1)] (by simp)
    rw [List.foldl_cons, List.foldl_cons, List.foldl_nil, @appendLiveStreamTail_long [] _ (by
      rw [List.nil_append, hinit]
      omega), List.nil_append, hstart, appendLiveStreamTail_short (by
      rw [hnext, List.length_drop]
      omega), hnext] at hcut
    exact Bool.false_ne_true ((hbegins _ (by omega) hcut.symm).symm.trans hlow)

/-- A stream's tail depends on its text alone exactly where it is cut cleanly. -/
theorem appendLiveStreamTail_cut (text : Text) : KeepsTail text ↔ CutsClean text :=
  ⟨cutsClean_of_keepsTail, keepsTail_of_cutsClean⟩

/-- A text of low surrogates that is two units too long: cut off before the last one, its tail is not what is
kept of the whole. -/
theorem not_keepsTail_lows : ¬∀ text : Text, KeepsTail text := by
  intro h
  have hlen : (List.replicate (liveStreamTextMaxLength + 2) (0xdc00 : UInt16)).length =
      liveStreamTextMaxLength + 2 := List.length_replicate
  have hclean := cutsClean_of_keepsTail (h (List.replicate (liveStreamTextMaxLength + 2) 0xdc00)) (by omega)
  have hlow : ∀ i < liveStreamTextMaxLength + 2,
      isLowAt (List.replicate (liveStreamTextMaxLength + 2) 0xdc00) i = true := by
    intro i hi
    rw [isLowAt, List.getElem?_replicate_of_lt hi]
    rfl
  have hpos : 1 < liveStreamTextMaxLength := by decide
  rw [hlen] at hclean
  exact hclean.1 ⟨hlow _ (by omega), hlow _ (by omega)⟩

end Opensteer.LiveStreamTail
