import Opensteer.ChannelCore.SplitText
import Opensteer.Core.WellFormed

/-!
# What the parts of a text keep

The lines of a text at which no fence is opened or closed are cut into `Pieces`, off their surrogate pairs,
and each part `Carries` pieces between the delimiters of the fences it is in. One that would be empty is
dropped, with which nothing but white space is lost (`Carries.visible_sublist`).
-/

namespace Opensteer.ChannelCore

open scoped List
open Shared.Markdown (newline)
open Text (Apart apart_of_head apart_of_last)

variable {maxChars : Nat} {s : Split maxChars} {fence : CodeFence maxChars} {line rest text : Text}
  {lines pieces : List Text}

/-- The lines at which no fence is opened or closed. -/
def contentLines : Option (CodeFence maxChars) → List Text → List Text
  | _, [] => []
  | some fence, line :: lines =>
    if fence.closedBy line then contentLines none lines else line :: contentLines (some fence) lines
  | none, line :: lines =>
    match opens maxChars line with
    | some opening => contentLines (some opening) lines
    | none => line :: contentLines none lines

/-- A line that opens a fence in the text, or the delimiter that closes it. -/
def Delimits (maxChars : Nat) (lines : List Text) (line : Text) : Prop :=
  ∃ fence : CodeFence maxChars, fence.opening ∈ lines ∧ opens maxChars fence.opening = some fence ∧
    (line = fence.opening ∨ line = fence.marker)

/-- What stands between a text and the line after it. -/
def Between (text between : Text) : Prop := between = [newline] ∨ text = [] ∧ between = []

/-- A part, and the pieces of lines it carries between delimiters. -/
inductive Carries (maxChars : Nat) (lines : List Text) : Text → List Text → Prop
  | empty : Carries maxChars lines [] []
  | piece {text between : Text} {pieces : List Text} (piece : Text) (h : Carries maxChars lines text pieces)
      (hbetween : Between text between) :
    Carries maxChars lines (text ++ between ++ piece) (pieces ++ [piece])
  | delimiter {text between line : Text} {pieces : List Text} (h : Carries maxChars lines text pieces)
      (hbetween : Between text between) (hline : Delimits maxChars lines line) :
    Carries maxChars lines (text ++ between ++ line) pieces
  | trimmed {text : Text} {pieces : List Text} (h : Carries maxChars lines text pieces) :
    Carries maxChars lines text.trimEnd pieces

/-- The lines, each cut into pieces where no pair lies across the cut. -/
inductive Pieces : List Text → List Text → Prop
  | nil : Pieces [] []
  | whole {lines pieces : List Text} (line : Text) (h : Pieces lines pieces) :
    Pieces (line :: lines) (line :: pieces)
  | cut {first rest : Text} {lines pieces : List Text} (hapart : Apart first rest)
      (h : Pieces (rest :: lines) pieces) : Pieces ((first ++ rest) :: lines) (first :: pieces)

theorem Pieces.append {lines' pieces' : List Text} (h : Pieces lines pieces) (h' : Pieces lines' pieces') :
    Pieces (lines ++ lines') (pieces ++ pieces') := by
  induction h with
  | nil => exact h'
  | whole line h ih => exact .whole line ih
  | cut hapart h ih => exact .cut hapart ih

theorem Pieces.flatten_eq (h : Pieces lines pieces) : pieces.flatten = lines.flatten := by
  induction h with
  | nil => rfl
  | whole line h ih => rw [List.flatten_cons, List.flatten_cons, ih]
  | cut hapart h ih => rw [List.flatten_cons, ih, List.flatten_cons, List.flatten_cons, List.append_assoc]

/-! ## What can be seen -/

/-- The characters that are no white space. -/
def visible (text : Text) : Text := text.filter (!isWhiteSpace ·)

theorem visible_append (text rest : Text) : visible (text ++ rest) = visible text ++ visible rest :=
  List.filter_append ..

theorem visible_trimEnd (text : Text) : visible text.trimEnd = visible text := by
  have hspace : visible (text.rtakeWhile isWhiteSpace) = [] :=
    List.filter_eq_nil_iff.mpr fun unit hunit => by simp [List.mem_rtakeWhile_imp hunit]
  have happend : text.rdropWhile isWhiteSpace ++ text.rtakeWhile isWhiteSpace = text :=
    List.rdropWhile_append_rtakeWhile
  conv_rhs => rw [← happend]
  rw [visible_append, hspace, List.append_nil]
  rfl

theorem visible_normalizeFrom (text : Text) (afterReturn : Bool) :
    visible (normalizeFrom afterReturn text) = visible text := by
  have hspace : ∀ (unit : UInt16) (text : Text), isWhiteSpace unit = true → visible (unit :: text) = visible text :=
    fun unit text h => by rw [visible, List.filter_cons_of_neg (by simp [h])]; rfl
  induction text generalizing afterReturn with
  | nil => rfl
  | cons unit text ih =>
    rw [normalizeFrom]
    split
    · rename_i h
      rw [ih, eq_of_beq (Bool.and_eq_true_iff.mp h).2, hspace newline text rfl]
    · split
      · rename_i h
        rw [hspace newline _ rfl, ih, h, hspace carriageReturn text rfl]
      · rw [← List.singleton_append, visible_append, ih, ← visible_append, List.singleton_append]

/-- What can be seen of the pieces can be seen of the part. -/
theorem Carries.visible_sublist (h : Carries maxChars lines text pieces) : visible pieces.flatten <+ visible text := by
  induction h with
  | empty => exact List.Sublist.refl _
  | piece piece h hbetween ih =>
    rw [List.flatten_append, List.flatten_singleton, visible_append, visible_append, visible_append]
    exact (ih.trans (List.sublist_append_left ..)).append (List.Sublist.refl _)
  | delimiter h hbetween hline ih =>
    rw [visible_append, visible_append, List.append_assoc]
    exact ih.trans (List.sublist_append_left ..)
  | trimmed h ih => rwa [visible_trimEnd]

/-- With the empty parts nothing is lost that can be seen. -/
theorem visible_kept {cut : List (Text × List Text)} (h : ∀ part ∈ cut, Carries maxChars lines part.1 part.2) :
    visible ((cut.filter (0 < ·.1.length)).flatMap Prod.snd).flatten = visible (cut.flatMap Prod.snd).flatten := by
  induction cut with
  | nil => rfl
  | cons part cut ih =>
    obtain ⟨hpart, hcut⟩ := List.forall_mem_cons.mp h
    rw [List.flatMap_cons, List.flatten_append, visible_append, ← ih hcut, List.filter_cons]
    split
    · rw [List.flatMap_cons, List.flatten_append, visible_append]
    · rename_i hempty
      rw [decide_eq_true_eq, Nat.not_lt, Nat.le_zero, List.length_eq_zero_iff] at hempty
      have hsub := hpart.visible_sublist
      rw [hempty] at hsub
      rw [List.eq_nil_of_sublist_nil hsub, List.nil_append]

/-! ## The loop -/

theorem offPair_apart (rest : Text) (cut : Nat) :
    Apart (rest.take (offPair rest cut)) (rest.drop (offPair rest cut)) := by
  unfold offPair
  split
  · rename_i h
    obtain ⟨unit, hunit, hhigh⟩ := (Option.any_eq_true _ _).mp h.2
    refine apart_of_head ?_
    rw [List.head?_drop, hunit]
    exact Text.not_isLow_of_isHigh hhigh
  · rename_i h
    cases hunit : rest[cut - 1]? with
    | none =>
      have hlength := List.getElem?_eq_none_iff.mp hunit
      refine apart_of_head ?_
      rw [List.drop_eq_nil_of_le (by omega)]
      rfl
    | some unit =>
      refine apart_of_last ?_
      rw [List.getLast?_take]
      split
      · rfl
      · rw [hunit] at h ⊢
        exact eq_false_of_ne_true fun hhigh => h ⟨by omega, hhigh⟩

namespace Split

theorem fence_fill (hmax : 8 ≤ maxChars) (s : Split maxChars) (rest : Text) :
    (fill hmax s rest).fence = s.fence := by
  fun_induction ChannelCore.fill hmax s rest with
  | case1 => rfl
  | case2 s rest hroom hcut ih => exact ih
  | case3 s rest hroom hcut ih => exact ih

theorem fence_write (hmax : 8 ≤ maxChars) (s : Split maxChars) (line : Text) :
    (write hmax s line).fence = s.fence := by
  unfold ChannelCore.write
  dsimp only
  split
  · exact fence_fill hmax _ line
  · exact fence_fill hmax s line

/-- What was cut off, of which the parts are what is not empty, and what this part carries. -/
structure Kept (lines : List Text) (s : Split maxChars) (cut : List (Text × List Text)) (current : List Text) :
    Prop where
  parts : s.parts = (cut.filter (0 < ·.1.length)).map Prod.fst
  cut : ∀ part ∈ cut, Carries maxChars lines part.1 part.2
  current : Carries maxChars lines s.current current
  fence : ∀ fence ∈ s.fence, fence.opening ∈ lines ∧ opens maxChars fence.opening = some fence

/-- The pieces that have been carried off or are in this part. -/
def Holds (lines : List Text) (s : Split maxChars) (pieces : List Text) : Prop :=
  ∃ cut current, Kept lines s cut current ∧ cut.flatMap Prod.snd ++ current = pieces

variable {cut : List (Text × List Text)} {current : List Text}

theorem Kept.opening (h : Kept lines s cut current) (hfence : s.fence = some fence) :
    Delimits maxChars lines fence.opening := by
  obtain ⟨hmem, hopens⟩ := h.fence fence hfence
  exact ⟨fence, hmem, hopens, .inl rfl⟩

theorem Kept.marker (h : Kept lines s cut current) (hfence : s.fence = some fence) :
    Delimits maxChars lines fence.marker := by
  obtain ⟨hmem, hopens⟩ := h.fence fence hfence
  exact ⟨fence, hmem, hopens, .inr rfl⟩

theorem Kept.closed (h : Kept lines s cut current) (hfence : s.fence = some fence) :
    Carries maxChars lines (s.current ++ newline :: fence.marker) current := by
  have hclosed := h.current.delimiter (.inl rfl) (h.marker hfence)
  rwa [List.append_assoc, List.singleton_append] at hclosed

theorem Kept.part (h : Kept lines s cut current) : Carries maxChars lines s.part current := by
  unfold Split.part
  cases hfence : s.fence with
  | none => exact h.current.trimmed
  | some fence => exact h.closed hfence

theorem Kept.reopening (h : Kept lines s cut current) : Carries maxChars lines s.reopening [] := by
  unfold Split.reopening
  cases hfence : s.fence with
  | none => exact .empty
  | some fence => exact .delimiter .empty (.inr ⟨rfl, rfl⟩) (h.opening hfence)

theorem Kept.flush (h : Kept lines s cut current) : Kept lines s.flush (cut ++ [(s.part, current)]) [] := by
  refine ⟨?_, ?_, h.reopening, h.fence⟩
  · rw [List.filter_append, List.map_append, ← h.parts, List.filter_singleton]
    unfold Split.flush
    dsimp only
    split <;> simp_all
  · intro part hpart
    rcases List.mem_append.mp hpart with hpart | hpart
    · exact h.cut part hpart
    · exact List.mem_singleton.mp hpart ▸ h.part

theorem Holds.flush (h : s.Holds lines pieces) : s.flush.Holds lines pieces := by
  obtain ⟨cut, current, hkept, rfl⟩ := h
  refine ⟨_, _, hkept.flush, ?_⟩
  rw [List.flatMap_append, List.flatMap_singleton, List.append_nil]

theorem between_separator (s : Split maxChars) : Between s.current s.separator := by
  unfold separator
  split
  · exact .inl rfl
  · rename_i hpos
    exact .inr ⟨List.eq_nil_of_length_eq_zero (Nat.eq_zero_of_not_pos hpos), rfl⟩

theorem Holds.append (h : s.Holds lines pieces) (text : Text) : (s.append text).Holds lines (pieces ++ [text]) := by
  obtain ⟨cut, current, hkept, rfl⟩ := h
  have hcurrent := hkept.current.piece text s.between_separator
  exact ⟨cut, current ++ [text], ⟨hkept.parts, hkept.cut, hcurrent, hkept.fence⟩, (List.append_assoc ..).symm⟩

theorem Holds.fill (hmax : 8 ≤ maxChars) (h : s.Holds lines pieces) :
    ∃ new, (fill hmax s rest).Holds lines (pieces ++ new) ∧ Pieces [rest] new := by
  fun_induction ChannelCore.fill hmax s rest generalizing pieces with
  | case1 s rest => exact ⟨[rest], h.append rest, .whole rest .nil⟩
  | case2 s rest hroom hcut ih =>
    obtain ⟨new, hholds, hnew⟩ := ih (h.append _).flush
    have hpieces := Pieces.cut (offPair_apart rest _) hnew
    rw [List.append_assoc] at hholds
    rw [List.take_append_drop] at hpieces
    exact ⟨_, hholds, hpieces⟩
  | case3 s rest hroom hcut ih => exact ih h.flush

theorem Holds.write (hmax : 8 ≤ maxChars) (h : s.Holds lines pieces) :
    ∃ new, (write hmax s line).Holds lines (pieces ++ new) ∧ Pieces [line] new := by
  unfold ChannelCore.write
  dsimp only
  split
  · exact h.flush.fill hmax
  · exact h.fill hmax

/-- A fence is opened in this part or the next. -/
theorem Holds.opened (h : s.Holds lines pieces) (hline : line ∈ lines) (hopens : opens maxChars line = some fence) :
    Holds lines { s with
      current := if 0 < s.current.length then s.current ++ newline :: line else line
      fence := some fence } pieces := by
  obtain ⟨cut, current, hkept, rfl⟩ := h
  obtain rfl := opening_of_opens hopens
  have hdelimits : Delimits maxChars lines fence.opening := ⟨fence, hline, hopens, .inl rfl⟩
  have hcurrent := hkept.current.delimiter s.between_separator hdelimits
  refine ⟨cut, current, ⟨hkept.parts, hkept.cut, ?_, ?_⟩, rfl⟩
  · unfold separator at hcurrent
    dsimp only
    split
    · rename_i hpos
      rwa [if_pos hpos, List.append_assoc, List.singleton_append] at hcurrent
    · rename_i hpos
      rwa [if_neg hpos, List.eq_nil_of_length_eq_zero (Nat.eq_zero_of_not_pos hpos)] at hcurrent
  · rintro fence' ⟨⟩
    exact ⟨hline, hopens⟩

theorem Holds.addLine (hmax : 8 ≤ maxChars) (h : s.Holds lines pieces) (hline : line ∈ lines) :
    ∃ new, (addLine hmax s line).Holds lines (pieces ++ new) ∧ Pieces (contentLines s.fence [line]) new := by
  unfold ChannelCore.addLine
  cases hfence : s.fence with
  | some fence =>
    rw [contentLines]
    dsimp only
    split
    · obtain ⟨cut, current, hkept, rfl⟩ := h
      refine ⟨[], ⟨cut, current, ⟨hkept.parts, hkept.cut, hkept.closed hfence, ?_⟩, ?_⟩, .nil⟩
      · rintro fence' ⟨⟩
      · exact (List.append_nil _).symm
    · exact h.write hmax
  | none =>
    rw [contentLines]
    cases hopens : opens maxChars line with
    | some opening =>
      refine ⟨[], ?_, .nil⟩
      rw [List.append_nil]
      dsimp only
      split
      · exact h.flush.opened hline hopens
      · exact h.opened hline hopens
    | none => exact h.write hmax

end Split

theorem contentLines_cons (hmax : 8 ≤ maxChars) (s : Split maxChars) (line : Text) (rest : List Text) :
    contentLines s.fence (line :: rest) =
      contentLines s.fence [line] ++ contentLines (addLine hmax s line).fence rest := by
  unfold addLine
  cases hfence : s.fence with
  | some fence =>
    rw [contentLines, contentLines]
    dsimp only
    split
    · rfl
    · rw [Split.fence_write, hfence]
      rfl
  | none =>
    rw [contentLines, contentLines]
    cases hopens : opens maxChars line with
    | some opening => rfl
    | none =>
      dsimp only
      rw [Split.fence_write, hfence]
      rfl

theorem Split.Holds.foldl (hmax : 8 ≤ maxChars) (h : s.Holds lines pieces) {rest : List Text}
    (hrest : rest ⊆ lines) : ∃ new, (rest.foldl (ChannelCore.addLine hmax) s).Holds lines (pieces ++ new) ∧
      Pieces (contentLines s.fence rest) new := by
  induction rest generalizing s pieces with
  | nil => exact ⟨[], by rwa [List.append_nil], by cases s.fence <;> exact .nil⟩
  | cons line rest ih =>
    obtain ⟨hline, hrest⟩ := List.cons_subset.mp hrest
    obtain ⟨new, hholds, hnew⟩ := h.addLine hmax hline
    obtain ⟨later, hlater, hpieces⟩ := ih hholds hrest
    refine ⟨new ++ later, ?_, ?_⟩
    · rwa [List.foldl_cons, ← List.append_assoc]
    · rw [contentLines_cons hmax]
      exact hnew.append hpieces

theorem Split.holds_initial (lines : List Text) : Split.Holds lines (⟨[], [], none⟩ : Split maxChars) [] :=
  ⟨[], [], ⟨rfl, fun _ h => absurd h List.not_mem_nil, .empty, fun _ h => absurd h (Option.not_mem_none _)⟩, rfl⟩

/-- The last part is cut off, or is empty. -/
theorem Split.Holds.finish (h : s.Holds lines pieces) : ∃ cut : List (Text × List Text),
    (if 0 < s.current.length then s.flush else s).parts = (cut.filter (0 < ·.1.length)).map Prod.fst ∧
      (∀ part ∈ cut, Carries maxChars lines part.1 part.2) ∧ cut.flatMap Prod.snd = pieces := by
  split
  · obtain ⟨cut, current, hkept, rfl⟩ := h
    refine ⟨_, hkept.flush.parts, hkept.flush.cut, ?_⟩
    rw [List.flatMap_append, List.flatMap_singleton]
  · rename_i hpos
    obtain ⟨cut, current, hkept, rfl⟩ := h
    refine ⟨cut ++ [(s.current, current)], ?_, ?_, ?_⟩
    · rw [List.filter_append, List.filter_singleton, decide_eq_false hpos, hkept.parts]
      exact congrArg _ (List.append_nil _).symm
    · exact List.forall_mem_append.mpr ⟨hkept.cut, List.forall_mem_singleton.mpr hkept.current⟩
    · rw [List.flatMap_append, List.flatMap_singleton]

/-- A text over the limit, as it was cut. -/
theorem splitMessageText_cut (hmax : 8 ≤ maxChars) (hlong : maxChars < (normalize text).length) :
    ∃ cut : List (Text × List Text),
      splitMessageText text maxChars = some ((cut.filter (0 < ·.1.length)).map Prod.fst) ∧
      (∀ part ∈ cut, Carries maxChars ((normalize text).splitOn newline) part.1 part.2) ∧
      Pieces (contentLines (none : Option (CodeFence maxChars)) ((normalize text).splitOn newline))
        (cut.flatMap Prod.snd) := by
  obtain ⟨new, hholds, hnew⟩ := Split.Holds.foldl hmax (Split.holds_initial _) (List.Subset.refl _)
  obtain ⟨cut, hcut, hcarries, hpieces⟩ := hholds.finish
  rw [List.nil_append] at hpieces
  rw [← hpieces] at hnew
  refine ⟨cut, ?_, hcarries, hnew⟩
  rw [splitMessageText_eq hmax, if_neg (Nat.not_le.mpr hlong), ← hcut]

/-- A text within the limit is its one part. A longer one has parts within it, none of them empty: its content
is cut off the pairs, and what can be seen of it is carried by the parts between the delimiters of fences. -/
theorem splitMessageText_keeps (text : Text) (hmax : 8 ≤ maxChars) :
    let lines := (normalize text).splitOn newline
    let content := contentLines (none : Option (CodeFence maxChars)) lines
    visible (normalize text) = visible text ∧ ∃ parts, splitMessageText text maxChars = some parts ∧
      (∀ part ∈ parts, part.length ≤ maxChars ∧ (maxChars < text.length → part ≠ [])) ∧
      ((normalize text).length ≤ maxChars → parts = [normalize text]) ∧
      (maxChars < (normalize text).length → ∃ cut : List (Text × List Text),
        parts = (cut.filter (0 < ·.1.length)).map Prod.fst ∧
        (∀ part ∈ cut, Carries maxChars lines part.1 part.2) ∧
        Pieces content (cut.flatMap Prod.snd) ∧
        visible ((cut.filter (0 < ·.1.length)).flatMap Prod.snd).flatten = visible content.flatten) := by
  intro lines content
  obtain ⟨parts, hparts, hbounded⟩ := (splitMessageText_bounded text maxChars).2 hmax
  refine ⟨visible_normalizeFrom text false, parts, hparts, fun part hpart => ?_, fun hle => ?_, fun hlong => ?_⟩
  · obtain ⟨hle, hempty⟩ := hbounded part hpart
    refine ⟨hle, fun hlong hnil => ?_⟩
    rw [hempty hnil] at hlong
    exact Nat.not_lt_zero _ hlong
  · rw [splitMessageText_eq hmax, if_pos hle] at hparts
    exact (Option.some.inj hparts).symm
  · obtain ⟨cut, hcut, hcarries, hpieces⟩ := splitMessageText_cut hmax hlong
    refine ⟨cut, Option.some.inj (hparts.symm.trans hcut), hcarries, hpieces, ?_⟩
    rw [visible_kept hcarries, hpieces.flatten_eq]

theorem splitMessageText_keeps_short : ∃ parts, splitMessageText (units "steer") 8 = some parts ∧
    (normalize (units "steer")).length ≤ 8 ∧ parts = [normalize (units "steer")] := by
  obtain ⟨-, parts, hparts, -, hshort, -⟩ := splitMessageText_keeps (units "steer") (Nat.le_refl 8)
  exact ⟨parts, hparts, by decide, hshort (by decide)⟩

/-- A fence's mark at the start of a cut line's rest: the part it is in, read alone, opens a fence there. -/
theorem not_keeps_read_alone : ¬ ∀ (text : Text) (maxChars : Nat) (parts : List Text), 8 ≤ maxChars →
    splitMessageText text maxChars = some parts →
    visible (parts.flatMap fun part =>
      (contentLines (none : Option (CodeFence maxChars)) (part.splitOn newline)).flatten) =
    visible (contentLines (none : Option (CodeFence maxChars)) ((normalize text).splitOn newline)).flatten := by
  intro h
  have hmax : 8 ≤ 10 := by decide
  have hfill : fill hmax ⟨[], [], none⟩ (units "aaaaaaaaaa```") = ⟨[units "aaaaaaaaaa"], units "```", none⟩ := by
    rw [fill, if_neg (by decide), if_pos (by decide), fill, if_pos (by decide)]
    rfl
  have hadd : addLine hmax ⟨[], [], none⟩ (units "aaaaaaaaaa```") = ⟨[units "aaaaaaaaaa"], units "```", none⟩ := hfill
  have hparts : splitMessageText (units "aaaaaaaaaa```") 10 = some [units "aaaaaaaaaa", units "```"] := by
    have hlines : (normalize (units "aaaaaaaaaa```")).splitOn newline = [units "aaaaaaaaaa```"] := by decide
    rw [splitMessageText_eq hmax, if_neg (by decide), hlines, List.foldl_cons, List.foldl_nil, hadd]
    rfl
  exact absurd (h _ _ _ hmax hparts) (by decide)

end Opensteer.ChannelCore
