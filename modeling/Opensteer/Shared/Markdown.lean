import Opensteer.Core.Json
import Opensteer.Core.Text

/-!
# Markdown in blocks

`splitMarkdownBlocks` of `packages/shared/src/markdown.ts`, a turn of its loop being a line (`splitLine`). A
block is cut off before a line that opens one (`Opens`), of which the rest of the line, when it comes later,
changes nothing but whether it continues the block above: the number of a list's item may still lack its mark.
-/

namespace Opensteer.Shared.Markdown

def newline : UInt16 := 0xa

def isLineTerminator (unit : UInt16) : Bool := unit ∈ ([0xa, 0xd, 0x2028, 0x2029] : List UInt16)

def isDigit (unit : UInt16) : Bool := 0x30 ≤ unit && unit ≤ 0x39

def isLetter (unit : UInt16) : Bool := (0x41 ≤ unit && unit ≤ 0x5a) || (0x61 ≤ unit && unit ≤ 0x7a)

/-- Without the spaces that ` {0,3}` takes. -/
def outdent (text : Text) : Text := text.drop ((text.take 3).takeWhile (· == 0x20)).length

/-- `\[[^\]\n]+\]:`. -/
def definesLabel : Text → Bool
  | [] => false
  | unit :: rest =>
    let label := rest.takeWhile fun unit => unit != 0x5d && unit != newline
    unit == 0x5b && label != [] && (units "]:").isPrefixOf (rest.drop label.length)

/-- `<[A-Za-z!?/]`. -/
def opensTag : Text → Bool
  | unit :: next :: _ => unit == 0x3c && (isLetter next || next ∈ units "!?/")
  | _ => false

/-- What `spansBlocks` finds at the start of a line. -/
def spansFrom (text : Text) : Bool :=
  let rest := outdent text
  definesLabel rest || opensTag rest || (units ":::").isPrefixOf rest || (units "$$").isPrefixOf rest

/-- `spansBlocks.test` from a place in a text, that is at the start of a line or is not. -/
def spansAt : Bool → Text → Bool
  | _, [] => false
  | atStart, unit :: rest =>
    atStart && spansFrom (unit :: rest) || (units "[^").isPrefixOf (unit :: rest) || spansAt (isLineTerminator unit) rest

def spansBlocks (text : Text) : Bool := spansAt true text

/-- `fenceLine.exec(line)?.[1]`. -/
def fenceLine (line : Text) : Option Text :=
  match outdent line with
  | [] => none
  | mark :: rest =>
    let run := (mark :: rest).takeWhile (· == mark)
    if (mark = 0x60 ∨ mark = 0x7e) ∧ 3 ≤ run.length then some run else none

/-- `(?:[ \t]|$)`. -/
def spaceOrEnd : Text → Bool
  | [] => true
  | unit :: _ => unit == 0x20 || unit == 0x9

/-- `continuesBlock.test`. -/
def continuesBlock : Text → Bool
  | [] => false
  | unit :: rest =>
    let number := (unit :: rest).takeWhile isDigit
    unit == 0x20 || unit == 0x9 || unit ∈ units "-*+" && spaceOrEnd rest ||
      1 ≤ number.length && number.length ≤ 9 &&
        match (unit :: rest).drop number.length with
        | [] => false
        | mark :: rest => mark ∈ units ".)" && spaceOrEnd rest

/-- `indexOf`, of a text that is in the other. -/
def indexOf (text search : Text) : Nat := (List.range text.length).findIdx fun i => search.isPrefixOf (text.drop i)

/-- The variables of the loop, and whether it was left. -/
structure Split where
  blocks : List Text
  blockStart : Nat
  lineStart : Nat
  fence : Option Text
  fenceIndent : Nat
  afterBlank : Bool
  stopped : Bool

def isBlank (line : Text) : Bool := line.trim == []

/-- Whether a line has something left of the fence it is in. -/
def leaves (indent : Nat) (line : Text) : Bool := (line.slice 0 indent).any (!isWhiteSpace ·)

def closes (fence line : Text) : Bool :=
  match fenceLine line with
  | none => false
  | some opener => opener.head? == fence.head? && fence.length ≤ opener.length && line.trim == opener

/-- One turn of the loop. -/
def splitLine (text : Text) (s : Split) (line : Text) : Split :=
  if s.stopped then s
  else
    match s.fence with
    | some fence =>
      if leaves s.fenceIndent line then { s with stopped := true }
      else { s with
        fence := if closes fence line then none else some fence
        lineStart := s.lineStart + (line.length + 1) }
    | none =>
      if isBlank line then { s with afterBlank := true, lineStart := s.lineStart + (line.length + 1) }
      else
        let s :=
          if s.afterBlank ∧ s.blockStart < s.lineStart ∧ ¬ continuesBlock line then
            { s with blocks := s.blocks ++ [text.slice s.blockStart s.lineStart], blockStart := s.lineStart }
          else s
        { s with
          afterBlank := false
          fence := fenceLine line
          fenceIndent := ((fenceLine line).map (indexOf line)).getD s.fenceIndent
          lineStart := s.lineStart + (line.length + 1) }

def Split.initial : Split := ⟨[], 0, 0, none, 0, false, false⟩

def splitLines (text : Text) (s : Split) (lines : List Text) : List Text :=
  let s := lines.foldl (splitLine text) s
  s.blocks ++ [text.sliceFrom s.blockStart]

def splitMarkdownBlocks (text : Text) : List Text :=
  if 0xd ∈ text ∨ spansBlocks text then [text] else splitLines text .initial (text.splitOn newline)

/-! ## What a line does -/

/-- A block is cut off before the line. -/
def Opens (s : Split) (line : Text) : Prop :=
  s.stopped = false ∧ s.fence = none ∧ isBlank line = false ∧ s.afterBlank = true ∧ s.blockStart < s.lineStart ∧
    continuesBlock line = false

instance (s : Split) (line : Text) : Decidable (Opens s line) := inferInstanceAs (Decidable (_ ∧ _))

variable {text more line : Text} {s : Split} {lines : List Text}

theorem splitLine_of_opens (h : Opens s line) : (splitLine text s line).blocks = s.blocks ++ [text.slice s.blockStart s.lineStart] ∧
    (splitLine text s line).blockStart = s.lineStart := by
  obtain ⟨hstopped, hfence, hblank, hafter, hlt, hcontinues⟩ := h
  simp [splitLine, hstopped, hfence, hblank, hafter, hlt, hcontinues]

theorem splitLine_of_not_opens (h : ¬ Opens s line) :
    (splitLine text s line).blocks = s.blocks ∧ (splitLine text s line).blockStart = s.blockStart := by
  unfold splitLine
  split
  · exact ⟨rfl, rfl⟩
  · rename_i hstopped
    split
    · split
      · exact ⟨rfl, rfl⟩
      · exact ⟨rfl, rfl⟩
    · rename_i hfence
      split
      · exact ⟨rfl, rfl⟩
      · rename_i hblank
        dsimp only
        split
        · rename_i hopens
          exact absurd ⟨by simpa using hstopped, hfence, by simpa using hblank, hopens.1, hopens.2.1, by simpa using hopens.2.2⟩ h
        · exact ⟨rfl, rfl⟩

/-- A line is gone over, or the loop is left. -/
theorem lineStart_splitLine : (splitLine text s line).lineStart = s.lineStart + (line.length + 1) ∨
    (splitLine text s line).lineStart = s.lineStart ∧ (splitLine text s line).stopped = true := by
  unfold splitLine
  split
  · exact .inr ⟨rfl, by simp [*]⟩
  · split
    · split
      · exact .inr ⟨rfl, rfl⟩
      · exact .inl rfl
    · split
      · exact .inl rfl
      · dsimp only
        split
        · exact .inl rfl
        · exact .inl rfl

/-- A line of text outside of all fences. -/
theorem splitLine_text (hstopped : s.stopped = false) (hfence : s.fence = none) (hblank : isBlank line = false) :
    (splitLine text s line).stopped = false ∧ (splitLine text s line).fence = fenceLine line ∧
      (splitLine text s line).fenceIndent = ((fenceLine line).map (indexOf line)).getD s.fenceIndent ∧
      (splitLine text s line).afterBlank = false ∧ (splitLine text s line).lineStart = s.lineStart + (line.length + 1) := by
  unfold splitLine
  rw [hstopped, if_neg Bool.false_ne_true, hfence, hblank]
  dsimp only
  rw [if_neg Bool.false_ne_true]
  split
  · exact ⟨rfl, rfl, rfl, rfl, rfl⟩
  · exact ⟨hstopped, rfl, rfl, rfl, rfl⟩

theorem lineStart_le : s.lineStart ≤ (splitLine text s line).lineStart := by
  obtain h | ⟨h, -⟩ := @lineStart_splitLine text line s
  · omega
  · omega

theorem blockStart_splitLine_le (h : s.blockStart ≤ s.lineStart) : (splitLine text s line).blockStart ≤ s.lineStart := by
  by_cases hopens : Opens s line
  · exact (splitLine_of_opens hopens).2.le
  · exact (splitLine_of_not_opens hopens).2.trans_le h

/-- Only what stands before the line is looked at in the text. -/
theorem splitLine_append (h : s.lineStart ≤ text.length) : splitLine (text ++ more) s line = splitLine text s line := by
  have hslice : (text ++ more).slice s.blockStart s.lineStart = text.slice s.blockStart s.lineStart := by
    rw [Text.slice_natCast, Text.slice_natCast, List.take_append_of_le_length h]
  unfold splitLine
  rw [hslice]

/-! ## Blocks put together -/

/-- What is cut off is the text before the block that is open. -/
structure Cut (text : Text) (s : Split) : Prop where
  flatten_eq : s.blocks.flatten = text.take s.blockStart
  le : s.blockStart ≤ s.lineStart

theorem Cut.splitLine (h : Cut text s) : Cut text (splitLine text s line) := by
  have hle := @lineStart_le text line s
  by_cases hopens : Opens s line
  · obtain ⟨hblocks, hstart⟩ := @splitLine_of_opens text line s hopens
    refine ⟨?_, hstart ▸ hle⟩
    rw [hblocks, hstart, List.flatten_append, List.flatten_singleton, h.flatten_eq, Text.slice_natCast]
    have htake : text.take s.blockStart = (text.take s.lineStart).take s.blockStart := by
      rw [List.take_take, Nat.min_eq_left h.le]
    rw [htake, List.take_append_drop]
  · obtain ⟨hblocks, hstart⟩ := @splitLine_of_not_opens text line s hopens
    exact ⟨by rw [hblocks, hstart, h.flatten_eq], hstart ▸ h.le.trans hle⟩

theorem Cut.foldl (h : Cut text s) : Cut text (lines.foldl (Markdown.splitLine text) s) := by
  induction lines generalizing s with
  | nil => exact h
  | cons line lines ih => exact ih h.splitLine

/-- The blocks of a text are all of it. -/
theorem flatten_splitMarkdownBlocks (text : Text) : (splitMarkdownBlocks text).flatten = text := by
  unfold splitMarkdownBlocks
  split
  · exact List.flatten_singleton
  · have h : Cut text .initial := ⟨rfl, Nat.le_refl 0⟩
    rw [splitLines, List.flatten_append, List.flatten_singleton, h.foldl.flatten_eq, Text.sliceFrom_natCast,
      List.take_append_drop]

/-! ## A text that goes on -/

/-- What was cut off stays. -/
theorem blocks_prefix_foldl (text : Text) (s : Split) (lines : List Text) :
    s.blocks <+: (lines.foldl (splitLine text) s).blocks := by
  induction lines generalizing s with
  | nil => exact List.prefix_refl _
  | cons line lines ih =>
    refine List.IsPrefix.trans ?_ (ih (splitLine text s line))
    by_cases hopens : Opens s line
    · rw [(splitLine_of_opens hopens).1]
      exact List.prefix_append _ _
    · exact ⟨[], by rw [List.append_nil, (splitLine_of_not_opens hopens).1]⟩

theorem blocks_prefix_splitLines (text : Text) (s : Split) (lines : List Text) : s.blocks <+: splitLines text s lines :=
  (blocks_prefix_foldl text s lines).trans (List.prefix_append _ _)

theorem lineStart_foldl_le (text : Text) (s : Split) (lines : List Text) :
    (lines.foldl (splitLine text) s).lineStart ≤ s.lineStart + (lines.flatMap (· ++ [newline])).length := by
  induction lines generalizing s with
  | nil => exact Nat.le_refl _
  | cons line lines ih =>
    rw [List.foldl_cons, List.flatMap_cons, List.length_append, List.length_append, List.length_singleton]
    have := ih (splitLine text s line)
    obtain h | ⟨h, -⟩ := @lineStart_splitLine text line s
    · omega
    · omega

theorem foldl_append {s : Split} (h : s.lineStart + (lines.flatMap (· ++ [newline])).length ≤ text.length) :
    lines.foldl (splitLine (text ++ more)) s = lines.foldl (splitLine text) s := by
  induction lines generalizing s with
  | nil => rfl
  | cons line lines ih =>
    rw [List.flatMap_cons, List.length_append, List.length_append, List.length_singleton] at h
    rw [List.foldl_cons, List.foldl_cons, splitLine_append (by omega)]
    apply ih
    obtain h' | ⟨h', -⟩ := @lineStart_splitLine text line s
    · omega
    · omega

/-- The block that is open goes on to the next line at least, or to the end. -/
theorem splitLines_eq_cons (text : Text) (s : Split) (lines : List Text) : ∃ stop rest,
    splitLines text s lines = s.blocks ++ (text.take stop).drop s.blockStart :: rest ∧
      (s.lineStart ≤ stop ∨ text.length ≤ stop) := by
  induction lines generalizing s with
  | nil =>
    refine ⟨text.length, [], ?_, .inr (Nat.le_refl _)⟩
    rw [List.take_length, splitLines, List.foldl_nil, Text.sliceFrom_natCast]
  | cons line lines ih =>
    have hcons : splitLines text s (line :: lines) = splitLines text (splitLine text s line) lines := rfl
    by_cases hopens : Opens s line
    · obtain ⟨rest, hrest⟩ := blocks_prefix_splitLines text (splitLine text s line) lines
      rw [(splitLine_of_opens hopens).1, List.append_assoc, Text.slice_natCast] at hrest
      exact ⟨s.lineStart, rest, hcons.trans hrest.symm, .inl (Nat.le_refl _)⟩
    · obtain ⟨stop, rest, heq, hstop⟩ := ih (splitLine text s line)
      rw [(splitLine_of_not_opens hopens).1, (splitLine_of_not_opens hopens).2] at heq
      exact ⟨stop, rest, hcons.trans heq, hstop.imp_left lineStart_le.trans⟩

/-- The lines of a text are whole but for the last, to which more of it may come. -/
theorem splitOn_append (text : Text) : ∃ above line,
    text = above.flatMap (· ++ [newline]) ++ line ∧ text.splitOn newline = above ++ [line] ∧
      ∀ more : Text, (text ++ more).splitOn newline = above ++ (more.splitOn newline).modifyHead (line ++ ·) := by
  induction text with
  | nil =>
    refine ⟨[], [], rfl, rfl, fun more => ?_⟩
    cases h : more.splitOn newline with
    | nil => exact h
    | cons first rest => exact h
  | cons unit text ih =>
    obtain ⟨above, line, rfl, hlines, happend⟩ := ih
    by_cases hunit : unit = newline
    · subst hunit
      refine ⟨[] :: above, line, rfl, ?_, fun more => ?_⟩
      · rw [List.splitOn_cons_eq_if_modifyHead, if_pos (beq_self_eq_true _), hlines]
        rfl
      · rw [List.cons_append, List.splitOn_cons_eq_if_modifyHead, if_pos (beq_self_eq_true _), happend]
        rfl
    · cases above with
      | nil =>
        refine ⟨[], unit :: line, rfl, ?_, fun more => ?_⟩
        · rw [List.splitOn_cons_eq_if_modifyHead, if_neg (by simpa using hunit), hlines]
          rfl
        · rw [List.cons_append, List.splitOn_cons_eq_if_modifyHead, if_neg (by simpa using hunit), happend]
          cases more.splitOn newline with
          | nil => rfl
          | cons first rest => rfl
      | cons first above =>
        refine ⟨(unit :: first) :: above, line, rfl, ?_, fun more => ?_⟩
        · rw [List.splitOn_cons_eq_if_modifyHead, if_neg (by simpa using hunit), hlines]
          rfl
        · rw [List.cons_append, List.splitOn_cons_eq_if_modifyHead, if_neg (by simpa using hunit), happend]
          rfl

/-! ## What is found in a text is found when it goes on -/

theorem takeWhile_append_of_lt {p : UInt16 → Bool} (h : (text.takeWhile p).length < text.length) (more : Text) :
    (text ++ more).takeWhile p = text.takeWhile p := by
  rw [List.takeWhile_append, if_neg (Nat.ne_of_lt h)]

theorem outdent_append (h : outdent text ≠ []) (more : Text) : outdent (text ++ more) = outdent text ++ more := by
  have hlt : ((text.take 3).takeWhile (· == 0x20)).length < text.length := by
    rw [outdent, Ne, List.drop_eq_nil_iff] at h
    omega
  have hspaces : ((text ++ more).take 3).takeWhile (· == 0x20) = (text.take 3).takeWhile (· == 0x20) := by
    rw [List.take_append, List.takeWhile_append]
    split
    · rename_i hall
      rw [List.length_take] at hall
      have hnone : 3 - text.length = 0 := by omega
      rw [hnone, List.take_zero, List.takeWhile_nil, List.append_nil]
      exact ((List.takeWhile_prefix _).eq_of_length (by rw [hall, List.length_take])).symm
    · rfl
  rw [outdent, hspaces, List.drop_append_of_le_length hlt.le]
  rfl

theorem isPrefixOf_append {start : Text} (h : start.isPrefixOf text) (more : Text) : start.isPrefixOf (text ++ more) :=
  List.isPrefixOf_iff_prefix.mpr ((List.isPrefixOf_iff_prefix.mp h).trans (List.prefix_append text more))

theorem definesLabel_append (h : definesLabel text) (more : Text) : definesLabel (text ++ more) := by
  cases text with
  | nil => cases h
  | cons unit rest =>
    rw [definesLabel, Bool.and_eq_true] at h
    have hlt : (rest.takeWhile fun unit => unit != 0x5d && unit != newline).length < rest.length := by
      by_contra hle
      rw [List.drop_eq_nil_of_le (Nat.le_of_not_lt hle)] at h
      exact absurd h.2 (by decide)
    rw [List.cons_append, definesLabel, takeWhile_append_of_lt hlt, List.drop_append_of_le_length hlt.le, Bool.and_eq_true]
    exact ⟨h.1, isPrefixOf_append h.2 more⟩

theorem opensTag_append (h : opensTag text) (more : Text) : opensTag (text ++ more) := by
  obtain _ | ⟨unit, _ | ⟨next, rest⟩⟩ := text
  · cases h
  · cases h
  · exact h

theorem spansFrom_append (h : spansFrom text) (more : Text) : spansFrom (text ++ more) := by
  have hne : outdent text ≠ [] := by
    intro hnil
    rw [spansFrom, hnil] at h
    exact absurd h (by decide)
  rw [spansFrom, Bool.or_eq_true, Bool.or_eq_true, Bool.or_eq_true] at h
  rw [spansFrom, outdent_append hne, Bool.or_eq_true, Bool.or_eq_true, Bool.or_eq_true]
  obtain ((h | h) | h) | h := h
  · exact .inl (.inl (.inl (definesLabel_append h more)))
  · exact .inl (.inl (.inr (opensTag_append h more)))
  · exact .inl (.inr (isPrefixOf_append h more))
  · exact .inr (isPrefixOf_append h more)

theorem spansAt_append {atStart : Bool} (h : spansAt atStart text) (more : Text) : spansAt atStart (text ++ more) := by
  induction text generalizing atStart with
  | nil => cases h
  | cons unit text ih =>
    rw [spansAt, Bool.or_eq_true, Bool.or_eq_true, Bool.and_eq_true] at h
    rw [List.cons_append, spansAt, ← List.cons_append, Bool.or_eq_true, Bool.or_eq_true, Bool.and_eq_true]
    obtain (h | h) | h := h
    · exact .inl (.inl ⟨h.1, spansFrom_append h.2 more⟩)
    · exact .inl (.inr (isPrefixOf_append h more))
    · exact .inr (ih h)

theorem isBlank_iff {line : Text} : isBlank line ↔ ∀ unit ∈ line, isWhiteSpace unit := by
  rw [isBlank, beq_iff_eq, Text.trim, Text.trimEnd, List.rdropWhile_eq_nil_iff, Text.trimStart]
  refine ⟨fun h => List.dropWhile_eq_nil_iff.mp ?_, fun h => ?_⟩
  · by_contra hne
    have hhead := List.head_dropWhile_not isWhiteSpace hne
    rw [h _ (List.head_mem hne)] at hhead
    cases hhead
  · rw [List.dropWhile_eq_nil_iff.mpr h]
    exact fun _ h => absurd h List.not_mem_nil

theorem not_isBlank_append {line : Text} (h : isBlank line = false) (more : Text) : isBlank (line ++ more) = false := by
  rw [← Bool.not_eq_true, isBlank_iff] at h ⊢
  exact fun hall => h fun unit hunit => hall unit (List.mem_append_left _ hunit)

/-! ## Where the loop is -/

/-- Outside of all fences, in one, or behind a line left of an indented one. -/
inductive Place
  | outside
  | fenced (fence : Text) (indent : Nat)
  | left

def Place.next : Place → Text → Place
  | .outside, line =>
    if isBlank line then .outside
    else match fenceLine line with
      | none => .outside
      | some fence => .fenced fence (indexOf line fence)
  | .fenced fence indent, line =>
    if leaves indent line then .left else if closes fence line then .outside else .fenced fence indent
  | .left, _ => .left

/-- Where the lines of a text lead. -/
def place (lines : List Text) : Place := lines.foldl Place.next .outside

/-- What the loop knows behind some lines. -/
def Knows (above : List Text) (s : Split) : Prop :=
  match place above with
  | .outside => s.stopped = false ∧ s.fence = none ∧ s.afterBlank = above.getLast?.any isBlank ∧
      (above ≠ [] → s.blockStart < s.lineStart)
  | .fenced fence indent => s.stopped = false ∧ s.fence = some fence ∧ s.fenceIndent = indent ∧ s.afterBlank = false ∧
      s.blockStart < s.lineStart
  | .left => s.stopped = true

theorem not_isBlank_of_closes {fence line : Text} (h : closes fence line) : isBlank line = false := by
  unfold closes at h
  split at h
  · cases h
  · rename_i opener hopener
    have hne : opener ≠ [] := by
      rintro rfl
      unfold fenceLine at hopener
      split at hopener
      · cases hopener
      · dsimp only at hopener
        split at hopener
        · rename_i hrun
          rw [Option.some.inj hopener] at hrun
          exact absurd hrun.2 (by decide)
        · cases hopener
    rw [Bool.and_eq_true, beq_iff_eq] at h
    rw [isBlank, h.2, beq_eq_false_iff_ne]
    exact hne

theorem knows_splitLine {above : List Text} (h : Knows above s) (hle : s.blockStart ≤ s.lineStart) :
    Knows (above ++ [line]) (splitLine text s line) := by
  have hplace : place (above ++ [line]) = (place above).next line := by
    rw [place, List.foldl_append]
    rfl
  unfold Knows at h ⊢
  rw [hplace, List.getLast?_append_of_ne_nil _ (List.cons_ne_nil _ _)]
  cases hin : place above with
  | outside =>
    rw [hin] at h
    obtain ⟨hstopped, hfence, -, -⟩ := h
    cases hblank : isBlank line with
    | true =>
      simp [splitLine, Place.next, hstopped, hfence, hblank]
      omega
    | false =>
      obtain ⟨hstopped', hfence', hindent', hafter', hstart'⟩ := @splitLine_text text line s hstopped hfence hblank
      have hlt : (splitLine text s line).blockStart < (splitLine text s line).lineStart := by
        have := @blockStart_splitLine_le text line s hle
        omega
      rw [Place.next, hblank, if_neg Bool.false_ne_true]
      cases hopener : fenceLine line with
      | none => exact ⟨hstopped', hfence'.trans hopener, hafter'.trans hblank.symm, fun _ => hlt⟩
      | some fence =>
        rw [hopener] at hfence' hindent'
        exact ⟨hstopped', hfence', hindent', hafter', hlt⟩
  | fenced fence indent =>
    rw [hin] at h
    obtain ⟨hstopped, hfence, hindent, hafter, hlt⟩ := h
    cases hleaves : leaves indent line with
    | true => simp [splitLine, Place.next, hstopped, hfence, hindent, hleaves]
    | false =>
      cases hcloses : closes fence line with
      | true =>
        have := not_isBlank_of_closes hcloses
        simp [splitLine, Place.next, hstopped, hfence, hindent, hleaves, hcloses, hafter, this]
        omega
      | false =>
        simp [splitLine, Place.next, hstopped, hfence, hindent, hleaves, hcloses, hafter]
        omega
  | left =>
    rw [hin] at h
    dsimp only at h
    simp [splitLine, Place.next, h]

theorem knows_foldl (text : Text) (above : List Text) : Knows above (above.foldl (splitLine text) .initial) := by
  induction above using List.reverseRecOn with
  | nil => exact ⟨rfl, rfl, rfl, fun h => absurd rfl h⟩
  | append_singleton above line ih =>
    have hcut : Cut text .initial := ⟨rfl, Nat.le_refl 0⟩
    rw [List.foldl_append]
    exact knows_splitLine ih hcut.foldl.le

theorem opens_iff {above : List Text} (h : Knows above s) : Opens s line ↔
    place above = .outside ∧ above.getLast?.any isBlank = true ∧ isBlank line = false ∧ continuesBlock line = false := by
  unfold Knows at h
  cases hin : place above with
  | outside =>
    rw [hin] at h
    obtain ⟨hstopped, hfence, hafter, hlt⟩ := h
    constructor
    · exact fun hopens => ⟨rfl, hafter ▸ hopens.2.2.2.1, hopens.2.2.1, hopens.2.2.2.2.2⟩
    · rintro ⟨-, hblank, htext, hcontinues⟩
      have hne : above ≠ [] := by
        rintro rfl
        cases hblank
      exact ⟨hstopped, hfence, htext, hafter.trans hblank, hlt hne, hcontinues⟩
  | fenced fence indent =>
    rw [hin] at h
    refine iff_of_false (fun hopens => ?_) fun hplace => (nomatch hplace.1)
    cases hopens.2.1.symm.trans h.2.1
  | left =>
    rw [hin] at h
    refine iff_of_false (fun hopens => ?_) fun hplace => (nomatch hplace.1)
    cases hopens.1.symm.trans h

/-! ## Where a stream is cut -/

/-- A text ends behind a blank line, outside of all fences, in a line that with the rest of it continues the
block above, and without does not. -/
def CutsMark (above : List Text) (line rest : Text) : Prop :=
  place above = .outside ∧ above.getLast?.any isBlank = true ∧ isBlank line = false ∧ continuesBlock line = false ∧
    continuesBlock (line ++ rest) = true

/-- The blocks of a text but the last are those of the text with more, but where it is cut in such a line. -/
theorem prefix_splitLines_iff {above rest : List Text} {first : Text} (htext : text = above.flatMap (· ++ [newline]) ++ line) :
    (splitLines text .initial (above ++ [line])).dropLast <+:
        splitLines (text ++ more) .initial (above ++ (line ++ first) :: rest) ↔ ¬ CutsMark above line first := by
  have hlength := congrArg List.length htext
  rw [List.length_append] at hlength
  have hstart := lineStart_foldl_le text .initial above
  have hinitial : Split.initial.lineStart = 0 := rfl
  have habove : above.foldl (splitLine (text ++ more)) .initial = above.foldl (splitLine text) .initial :=
    foldl_append (by omega)
  have hknows := knows_foldl text above
  rw [splitLines, splitLines, List.foldl_append, List.foldl_append, habove, List.dropLast_concat]
  generalize above.foldl (splitLine text) .initial = s at *
  have hle : s.lineStart ≤ text.length := by omega
  show (splitLine text s line).blocks <+: splitLines (text ++ more) (splitLine (text ++ more) s (line ++ first)) rest ↔ _
  by_cases hopens : Opens s line
  · obtain ⟨hplace, hblank, hline, hcontinues⟩ := (opens_iff hknows).mp hopens
    rw [(splitLine_of_opens hopens).1, splitLine_append hle]
    cases hcontinues' : continuesBlock (line ++ first) with
    | false =>
      have hopens' : Opens s (line ++ first) :=
        (opens_iff hknows).mpr ⟨hplace, hblank, not_isBlank_append hline first, hcontinues'⟩
      have hblocks := blocks_prefix_splitLines (text ++ more) (splitLine text s (line ++ first)) rest
      rw [(splitLine_of_opens hopens').1] at hblocks
      refine iff_of_true hblocks fun h => ?_
      cases hcontinues'.symm.trans h.2.2.2.2
    | true =>
      refine iff_of_false ?_ fun h => h ⟨hplace, hblank, hline, hcontinues, hcontinues'⟩
      have hnot : ¬ Opens s (line ++ first) := fun h => by cases hcontinues'.symm.trans h.2.2.2.2.2
      obtain ⟨stop, rest', heq, hstop⟩ := splitLines_eq_cons (text ++ more) (splitLine text s (line ++ first)) rest
      obtain ⟨-, -, -, -, hstart'⟩ := @splitLine_text text _ s hopens.1 hopens.2.1 (not_isBlank_append hline first)
      rw [(splitLine_of_not_opens hnot).1, (splitLine_of_not_opens hnot).2] at heq
      rw [heq, List.prefix_append_right_inj, List.cons_prefix_cons]
      -- The block that was cut off ends at the line, and now it does not.
      intro hblock
      have hsame := congrArg List.length hblock.1
      rw [Text.slice_natCast, List.length_drop, List.length_drop, List.length_take, List.length_take] at hsame
      rw [List.length_append] at hsame hstop
      have hne : 0 < line.length := by
        rw [List.length_pos_iff]
        rintro rfl
        cases hline
      have hopen := hopens.2.2.2.2.1
      omega
  · rw [(splitLine_of_not_opens hopens).1]
    refine iff_of_true (blocks_prefix_splitLines (text ++ more) s ((line ++ first) :: rest)) fun h => ?_
    exact hopens ((opens_iff hknows).mpr ⟨h.1, h.2.1, h.2.2.1, h.2.2.2.1⟩)

/-- The blocks of a text are all of it. Those but the last stay as it goes on, exactly where it is not cut in
the mark of a list's item that would open a block without. -/
theorem splitMarkdownBlocks_stable (text more : Text) : (splitMarkdownBlocks text).flatten = text ∧
    (0xd ∉ text ++ more → spansBlocks (text ++ more) = false →
      ((splitMarkdownBlocks text).dropLast <+: splitMarkdownBlocks (text ++ more) ↔
        ¬ CutsMark (text.splitOn newline).dropLast ((text.splitOn newline).getLastD []) ((more.splitOn newline).headD []))) := by
  refine ⟨flatten_splitMarkdownBlocks text, fun hreturn hspans => ?_⟩
  have hreturn' : 0xd ∉ text := fun h => hreturn (List.mem_append_left more h)
  have hspans' : spansBlocks text = false := by
    rw [← Bool.not_eq_true] at hspans ⊢
    exact fun h => hspans (spansAt_append h more)
  obtain ⟨above, line, htext, hlines, happend⟩ := splitOn_append text
  rw [splitMarkdownBlocks, splitMarkdownBlocks, if_neg (by simp [hreturn', hspans']), if_neg (not_or.mpr ⟨hreturn, by simp [hspans]⟩),
    happend, hlines, List.dropLast_concat, List.getLastD_concat]
  cases hmore : more.splitOn newline with
  | nil => exact absurd hmore (List.splitOn_ne_nil _ _)
  | cons first rest => exact prefix_splitLines_iff htext

theorem splitMarkdownBlocks_cut : (splitMarkdownBlocks (units "a\n\nb")).flatten = units "a\n\nb" ∧
    (splitMarkdownBlocks (units "a\n\nb")).dropLast <+: splitMarkdownBlocks (units "a\n\nb" ++ units "c\n\nd") := by
  have hstable := splitMarkdownBlocks_stable (units "a\n\nb") (units "c\n\nd")
  refine ⟨hstable.1, (hstable.2 (by decide) (by decide)).mpr fun h => ?_⟩
  exact absurd h.2.2.2.2 (by decide)

/-- The number of an item comes before its mark. -/
theorem not_stable_in_number : ¬ ∀ text more, 0xd ∉ text ++ more → spansBlocks (text ++ more) = false →
    (splitMarkdownBlocks text).dropLast <+: splitMarkdownBlocks (text ++ more) := by
  intro h
  have := h (units "a\n\n1") (units ". b") (by decide) (by decide)
  exact absurd this (by decide)

end Opensteer.Shared.Markdown
