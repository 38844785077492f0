import Opensteer.ChannelCore.SplitKept

/-!
# The parts of a text as texts

A text without a lone surrogate has no part with one: its line ends are in no pair
(`isWellFormed_normalizeFrom`), its pieces are cut off pairs, and a delimiter is a line of the text or holds
only a fence's marks. A part is split no further (`splitMessageText_part`).
-/

namespace Opensteer.ChannelCore

open Shared.Markdown (newline)
open Text (isWellFormed toWellFormed Apart apart_of_head isWellFormed_append isWellFormed_cons isWellFormed_iff)

variable {maxChars : Nat} {line rest text : Text} {lines pieces : List Text}

theorem isWellFormed_join (text rest : Text) :
    isWellFormed (text ++ newline :: rest) = (isWellFormed text && isWellFormed rest) := by
  rw [isWellFormed_append (apart_of_head rfl), isWellFormed_cons rfl]

theorem not_isLow_of_isWhiteSpace {unit : UInt16} (h : isWhiteSpace unit = true) : isLowSurrogate unit = false := by
  rw [isWhiteSpace, Bool.or_eq_true, decide_eq_true_eq, Bool.and_eq_true, decide_eq_true_eq, decide_eq_true_eq] at h
  rcases h with hlisted | ⟨-, hle⟩
  · have hall : ([0x9, 0xa, 0xb, 0xc, 0xd, 0x20, 0xa0, 0x1680, 0x2028, 0x2029, 0x202f, 0x205f, 0x3000,
        0xfeff] : List UInt16).all (!isLowSurrogate ·) = true := rfl
    have hnot := List.all_eq_true.mp hall unit hlisted
    simpa using hnot
  · have hlt : unit < 0xdc00 := UInt16.lt_of_le_of_lt hle (by decide)
    rw [isLowSurrogate, decide_eq_false (UInt16.not_le.mpr hlt), Bool.false_and]

theorem isWellFormed_trimEnd (h : isWellFormed text = true) : isWellFormed text.trimEnd = true := by
  have happart : Apart (text.rdropWhile isWhiteSpace) (text.rtakeWhile isWhiteSpace) := by
    refine apart_of_head ?_
    cases hhead : (text.rtakeWhile isWhiteSpace).head? with
    | none => rfl
    | some unit => exact not_isLow_of_isWhiteSpace (List.mem_rtakeWhile_imp (List.mem_of_head? hhead))
  have happend : text.rdropWhile isWhiteSpace ++ text.rtakeWhile isWhiteSpace = text :=
    List.rdropWhile_append_rtakeWhile
  rw [← happend, isWellFormed_append happart, Bool.and_eq_true] at h
  exact h.1

theorem normalizeFrom_surrogate {unit : UInt16} (h : (isHighSurrogate unit || isLowSurrogate unit) = true)
    {afterReturn : Bool} : normalizeFrom afterReturn (unit :: rest) = unit :: normalizeFrom false rest := by
  have hne : ∀ other, (isHighSurrogate other || isLowSurrogate other) = false → unit ≠ other := by
    rintro other hother rfl
    rw [h] at hother
    cases hother
  rw [normalizeFrom, if_neg ?_, if_neg (hne carriageReturn rfl)]
  rw [beq_eq_false_iff_ne.mpr (hne newline rfl), Bool.and_false]
  exact Bool.false_ne_true

/-- A line end is in no pair. -/
theorem isWellFormed_normalizeFrom (h : isWellFormed text = true) (afterReturn : Bool) :
    isWellFormed (normalizeFrom afterReturn text) = true := by
  have hplain : ∀ (unit : UInt16) (rest : Text) (afterReturn : Bool),
      (isHighSurrogate unit || isLowSurrogate unit) = false →
      (∀ afterReturn, isWellFormed (normalizeFrom afterReturn rest) = true) →
      isWellFormed (normalizeFrom afterReturn (unit :: rest)) = true := by
    intro unit rest afterReturn hunit hrest
    rw [normalizeFrom]
    split
    · exact hrest false
    · split
      · rw [isWellFormed_cons rfl, hrest]
      · rw [isWellFormed_cons hunit, hrest]
  rw [isWellFormed_iff] at h
  fun_induction toWellFormed text generalizing afterReturn with
  | case1 => rfl
  | case2 unit hunit =>
    obtain rfl : 0xfffd = unit := (List.cons.inj h).1
    exact hplain _ [] _ rfl fun _ => rfl
  | case3 unit hunit => exact hplain unit [] _ (eq_false_of_ne_true hunit) fun _ => rfl
  | case4 high low text hpair ih =>
    have htext := isWellFormed_iff.mp (ih (List.cons.inj (List.cons.inj h).2).2 false)
    obtain ⟨hhigh, hlow⟩ := Bool.and_eq_true_iff.mp hpair
    rw [normalizeFrom_surrogate (by rw [hhigh, Bool.true_or]), normalizeFrom_surrogate (by rw [hlow, Bool.or_true]),
      isWellFormed_iff, toWellFormed, if_pos hpair, htext]
  | case5 high low text hpair ih =>
    obtain ⟨hhead, htail⟩ := List.cons.inj h
    refine hplain high _ _ ?_ fun _ => ih htail _
    split at hhead
    · rw [← hhead]
      rfl
    · rename_i hunit
      exact eq_false_of_ne_true hunit

theorem isWellFormed_lines (h : isWellFormed text = true) :
    ∀ line ∈ text.splitOn newline, isWellFormed line = true := by
  obtain ⟨above, line, rfl, hsplit, -⟩ := Shared.Markdown.splitOn_append text
  rw [hsplit]
  clear hsplit
  induction above with
  | nil => simpa using h
  | cons first above ih =>
    rw [List.flatMap_cons, List.append_assoc, List.append_assoc, List.singleton_append, isWellFormed_join,
      Bool.and_eq_true] at h
    rw [List.cons_append]
    exact List.forall_mem_cons.mpr ⟨h.1, ih h.2⟩

/-- A fence's marks are of one kind. -/
theorem mem_marker {fence : CodeFence maxChars} (h : opens maxChars line = some fence) :
    ∀ unit ∈ fence.marker, unit = backtick ∨ unit = tilde := by
  have hmarks : ∀ marker info, fenceMatch line = some (marker, info) →
      ∀ unit ∈ marker, unit = backtick ∨ unit = tilde := by
    intro marker info hmatch unit hunit
    unfold fenceMatch at hmatch
    split at hmatch
    · cases hmatch
    · rename_i mark rest hline
      dsimp only at hmatch
      split at hmatch
      · rename_i hmark
        obtain ⟨rfl, -⟩ := Prod.mk.inj (Option.some.inj hmatch)
        have hsame := List.mem_takeWhile_imp hunit
        rw [beq_iff_eq] at hsame
        exact hsame ▸ hmark.1
      · cases hmatch
  unfold opens at h
  split at h
  · rename_i marker info hmatch
    split at h
    · obtain rfl := Option.some.inj h
      exact hmarks marker info hmatch
    · cases h
  · cases h

theorem isWellFormed_marker {fence : CodeFence maxChars} (h : opens maxChars line = some fence) :
    isWellFormed fence.marker = true := by
  refine Text.isWellFormed_of_plain fun unit hunit => ?_
  rcases mem_marker h unit hunit with rfl | rfl <;> rfl

theorem contentLines_subset (fence : Option (CodeFence maxChars)) (lines : List Text) :
    contentLines fence lines ⊆ lines := by
  fun_induction contentLines fence lines with
  | case1 => exact List.Subset.refl _
  | case2 fence line lines hcloses ih => exact List.subset_cons_of_subset _ ih
  | case3 fence line lines hcloses ih => exact List.cons_subset_cons _ ih
  | case4 line lines opening hopens ih => exact List.subset_cons_of_subset _ ih
  | case5 line lines hopens ih => exact List.cons_subset_cons _ ih

theorem Pieces.wellFormed (h : Pieces lines pieces) (hlines : ∀ line ∈ lines, isWellFormed line = true) :
    ∀ piece ∈ pieces, isWellFormed piece = true := by
  induction h with
  | nil => exact hlines
  | whole line h ih =>
    obtain ⟨hline, hlines⟩ := List.forall_mem_cons.mp hlines
    exact List.forall_mem_cons.mpr ⟨hline, ih hlines⟩
  | cut hapart h ih =>
    obtain ⟨hline, hlines⟩ := List.forall_mem_cons.mp hlines
    rw [isWellFormed_append hapart, Bool.and_eq_true] at hline
    exact List.forall_mem_cons.mpr ⟨hline.1, ih (List.forall_mem_cons.mpr ⟨hline.2, hlines⟩)⟩

theorem isWellFormed_between {between : Text} (h : Between text between) (htext : isWellFormed text = true)
    (hline : isWellFormed line = true) : isWellFormed (text ++ between ++ line) = true := by
  rcases h with rfl | ⟨rfl, rfl⟩
  · rw [List.append_assoc, List.singleton_append, isWellFormed_join, htext, hline]
    rfl
  · exact hline

theorem Carries.wellFormed (h : Carries maxChars lines text pieces)
    (hlines : ∀ line ∈ lines, isWellFormed line = true) (hpieces : ∀ piece ∈ pieces, isWellFormed piece = true) :
    isWellFormed text = true := by
  induction h with
  | empty => rfl
  | piece piece h hbetween ih =>
    obtain ⟨hpieces, hpiece⟩ := List.forall_mem_append.mp hpieces
    exact isWellFormed_between hbetween (ih hpieces) (hpiece piece (List.mem_singleton_self _))
  | delimiter h hbetween hline ih =>
    obtain ⟨fence, hmem, hopens, rfl | rfl⟩ := hline
    · exact isWellFormed_between hbetween (ih hpieces) (hlines _ hmem)
    · exact isWellFormed_between hbetween (ih hpieces) (isWellFormed_marker hopens)
  | trimmed h ih => exact isWellFormed_trimEnd (ih hpieces)

theorem le_of_splitMessageText {parts : List Text} (h : splitMessageText text maxChars = some parts) :
    8 ≤ maxChars := by
  by_contra hlt
  rw [splitMessageText, dif_neg hlt] at h
  cases h

/-- What holds of the text put in lines, and of each part of one that is cut, holds of every part. -/
theorem forall_parts {parts : List Text} {P : Text → Prop} (h : splitMessageText text maxChars = some parts)
    (hnormal : P (normalize text))
    (hpart : ∀ part carried, Carries maxChars ((normalize text).splitOn newline) part carried →
      (∃ pieces, Pieces (contentLines (none : Option (CodeFence maxChars)) ((normalize text).splitOn newline))
        pieces ∧ carried ⊆ pieces) → P part) : ∀ part ∈ parts, P part := by
  have hmax := le_of_splitMessageText h
  by_cases hshort : (normalize text).length ≤ maxChars
  · rw [splitMessageText_eq hmax, if_pos hshort] at h
    obtain rfl := Option.some.inj h
    exact fun part hpart => List.mem_singleton.mp hpart ▸ hnormal
  · obtain ⟨cut, hcut, hcarries, hpieces⟩ := splitMessageText_cut hmax (Nat.not_le.mp hshort)
    obtain rfl := Option.some.inj (hcut.symm.trans h)
    intro part hmem
    obtain ⟨carried, hcarried, rfl⟩ := List.mem_map.mp hmem
    have hcut := List.mem_of_mem_filter hcarried
    exact hpart _ _ (hcarries carried hcut)
      ⟨_, hpieces, fun piece hpiece => List.mem_flatMap.mpr ⟨carried, hcut, hpiece⟩⟩

/-- A text without a lone surrogate has no part with one. -/
theorem splitMessageText_wellFormed {parts : List Text} (htext : isWellFormed text = true)
    (h : splitMessageText text maxChars = some parts) : ∀ part ∈ parts, isWellFormed part = true := by
  have hnormal : isWellFormed (normalize text) = true := isWellFormed_normalizeFrom htext false
  have hlines := isWellFormed_lines hnormal
  refine forall_parts h hnormal ?_
  rintro part carried hcarries ⟨pieces, hpieces, hsub⟩
  have hwell := hpieces.wellFormed fun line hline => hlines line (contentLines_subset none _ hline)
  exact hcarries.wellFormed hlines fun piece hpiece => hwell piece (hsub hpiece)

theorem splitMessageText_wellFormed_short : isWellFormed (units "steer") = true := by
  have hparts : splitMessageText (units "steer") 8 = some [units "steer"] := by
    rw [splitMessageText_eq (by decide)]
    rfl
  exact splitMessageText_wellFormed (by decide) hparts (units "steer") (List.mem_singleton_self _)

/-! ## Splitting a part -/

theorem return_notMem_normalizeFrom (text : Text) (afterReturn : Bool) :
    carriageReturn ∉ normalizeFrom afterReturn text := by
  induction text generalizing afterReturn with
  | nil => exact List.not_mem_nil
  | cons unit text ih =>
    rw [normalizeFrom]
    split
    · exact ih false
    · split
      · exact List.not_mem_cons_of_ne_of_not_mem (by decide) (ih true)
      · rename_i hne
        exact List.not_mem_cons_of_ne_of_not_mem (Ne.symm hne) (ih false)

theorem normalize_eq_self (h : carriageReturn ∉ text) : normalize text = text := by
  unfold normalize
  induction text with
  | nil => rfl
  | cons unit text ih =>
    obtain ⟨hne, htext⟩ := not_or.mp (mt List.mem_cons.mpr h)
    rw [normalizeFrom, Bool.false_and, if_neg Bool.false_ne_true, if_neg (Ne.symm hne), ih htext]

theorem return_notMem_lines (h : carriageReturn ∉ text) :
    ∀ line ∈ text.splitOn newline, carriageReturn ∉ line := by
  obtain ⟨above, last, rfl, hsplit, -⟩ := Shared.Markdown.splitOn_append text
  rw [hsplit]
  intro line hline hmem
  refine h (List.mem_append.mpr ?_)
  rcases List.mem_append.mp hline with hline | hline
  · exact .inl (List.mem_flatMap.mpr ⟨line, hline, List.mem_append_left _ hmem⟩)
  · exact .inr (List.mem_singleton.mp hline ▸ hmem)

theorem Carries.return_notMem (h : Carries maxChars lines text pieces)
    (hlines : ∀ line ∈ lines, carriageReturn ∉ line) (hpieces : ∀ piece ∈ pieces, carriageReturn ∉ piece) :
    carriageReturn ∉ text := by
  have hbetween' : ∀ {text between : Text}, Between text between → carriageReturn ∉ between := by
    rintro text between (rfl | ⟨-, rfl⟩) <;> decide
  induction h with
  | empty => exact List.not_mem_nil
  | piece piece h hbetween ih =>
    obtain ⟨hpieces, hpiece⟩ := List.forall_mem_append.mp hpieces
    simp only [List.mem_append, not_or]
    exact ⟨⟨ih hpieces, hbetween' hbetween⟩, hpiece piece (List.mem_singleton_self _)⟩
  | delimiter h hbetween hline ih =>
    simp only [List.mem_append, not_or]
    refine ⟨⟨ih hpieces, hbetween' hbetween⟩, ?_⟩
    obtain ⟨fence, hmem, hopens, rfl | rfl⟩ := hline
    · exact hlines _ hmem
    · intro hreturn
      rcases mem_marker hopens _ hreturn with heq | heq <;> exact absurd heq (by decide)
  | trimmed h ih => exact fun hmem => ih hpieces ((List.rdropWhile_prefix _ _).subset hmem)

/-- A part is its own one part. -/
theorem splitMessageText_part {parts : List Text} (h : splitMessageText text maxChars = some parts) :
    ∀ part ∈ parts, splitMessageText part maxChars = some [part] := by
  have hmax := le_of_splitMessageText h
  have hnormal : carriageReturn ∉ normalize text := return_notMem_normalizeFrom text false
  have hlines := return_notMem_lines hnormal
  obtain ⟨parts', hparts', hbounded⟩ := (splitMessageText_bounded text maxChars).2 hmax
  obtain rfl := Option.some.inj (hparts'.symm.trans h)
  have hreturn : ∀ part ∈ parts', carriageReturn ∉ part := by
    refine forall_parts h hnormal ?_
    rintro part carried hcarries ⟨pieces, hpieces, hsub⟩
    refine hcarries.return_notMem hlines fun piece hpiece hmem => ?_
    have hflat : carriageReturn ∈ pieces.flatten := List.mem_flatten.mpr ⟨piece, hsub hpiece, hmem⟩
    rw [hpieces.flatten_eq] at hflat
    obtain ⟨line, hline, hmem⟩ := List.mem_flatten.mp hflat
    exact hlines line (contentLines_subset none _ hline) hmem
  intro part hpart
  have hself := normalize_eq_self (hreturn part hpart)
  have hle : (normalize part).length ≤ maxChars := hself.symm ▸ (hbounded part hpart).1
  rw [splitMessageText_eq hmax, if_pos hle, hself]

theorem splitMessageText_part_short : splitMessageText (units "steer") 8 = some [units "steer"] := by
  have hparts : splitMessageText (units "steer") 8 = some [units "steer"] := by
    rw [splitMessageText_eq (by decide)]
    rfl
  exact splitMessageText_part hparts (units "steer") (List.mem_singleton_self _)

end Opensteer.ChannelCore
