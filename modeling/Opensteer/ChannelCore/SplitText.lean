import Opensteer.Core.Coding
import Opensteer.Shared.Markdown

/-!
# Texts split for a channel

`splitMessageText` of `packages/channel-core/src/text.ts`, a turn of its outer loop being a line
(`addLine`) and the inner loop `fill`. A fence is opened only where it leaves room for content, which a
`CodeFence` carries with it, so that a fresh part has room for two units of any line (`two_le_room`) and
`fill` comes to an end.
-/

namespace Opensteer.ChannelCore

open Shared.Markdown (newline outdent isLineTerminator)

def carriageReturn : UInt16 := 0xd
def space : UInt16 := 0x20
def backtick : UInt16 := 0x60
def tilde : UInt16 := 0x7e

/-- `text.replace(/\r\n?/gu, "\n")`, after a carriage return or not. -/
def normalizeFrom : Bool → Text → Text
  | _, [] => []
  | afterReturn, unit :: rest =>
    if afterReturn && unit == newline then normalizeFrom false rest
    else if unit = carriageReturn then newline :: normalizeFrom true rest
    else unit :: normalizeFrom false rest

def normalize (text : Text) : Text := normalizeFrom false text

/-- The groups of `` /^ {0,3}(`{3,}|~{3,})(.*)$/u ``. -/
def fenceMatch (line : Text) : Option (Text × Text) :=
  match outdent line with
  | [] => none
  | mark :: rest =>
    let marker := (mark :: rest).takeWhile (· == mark)
    let info := (mark :: rest).drop marker.length
    if (mark = backtick ∨ mark = tilde) ∧ 3 ≤ marker.length ∧ info.all (!isLineTerminator ·) then
      some (marker, info)
    else none

/-- An open fence, of which both delimiters and some content fit in a part. -/
structure CodeFence (maxChars : Nat) where
  opening : Text
  marker : Text
  fits : opening.length + marker.length + 4 ≤ maxChars

variable {maxChars : Nat}

/-- Whether a line closes the fence it is in. -/
def CodeFence.closedBy (fence : CodeFence maxChars) (line : Text) : Bool :=
  match fenceMatch line with
  | some (marker, info) =>
    marker.head? == fence.marker.head? && fence.marker.length ≤ marker.length && info.trim == []
  | none => false

/-- The fence a line opens where none is open. -/
def opens (maxChars : Nat) (line : Text) : Option (CodeFence maxChars) :=
  match fenceMatch line with
  | some (marker, info) =>
    if h : ¬(marker.head? = some backtick ∧ backtick ∈ info) ∧ line.length + marker.length + 4 ≤ maxChars then
      some ⟨line, marker, h.2⟩
    else none
  | none => none

/-- A cut that is not after a high surrogate. -/
def offPair (rest : Text) (cut : Nat) : Nat :=
  if 0 < cut ∧ (rest[cut - 1]?).any isHighSurrogate = true then cut - 1 else cut

/-- The variables of the loop. -/
structure Split (maxChars : Nat) where
  parts : List Text
  current : Text
  fence : Option (CodeFence maxChars)

namespace Split

def closingRoom (s : Split maxChars) : Nat := (s.fence.map fun fence => fence.marker.length + 1).getD 0

/-- What a part after this one starts with. -/
def reopening (s : Split maxChars) : Text := (s.fence.map CodeFence.opening).getD []

def part (s : Split maxChars) : Text :=
  match s.fence with
  | some fence => s.current ++ newline :: fence.marker
  | none => s.current.trimEnd

def flush (s : Split maxChars) : Split maxChars :=
  { s with
    parts := if 0 < s.part.length then s.parts ++ [s.part] else s.parts
    current := s.reopening }

def separator (s : Split maxChars) : Text := if 0 < s.current.length then [newline] else []

/-- The room this part has left, which one whose separator alone is too much has not. -/
def room (s : Split maxChars) : Int := maxChars - s.current.length - s.separator.length - s.closingRoom

/-- Where a line that is longer than the room is cut: after a space of the second half, and off a pair. -/
def cut (s : Split maxChars) (rest : Text) : Nat :=
  let cut := s.room.toNat
  let at_ := rest.lastIndexOf [space] (cut - 1)
  offPair rest (if 0 < cut ∧ (cut : Int) ≤ 2 * at_ then (at_ + 1).toNat else cut)

/-- The part with the start of a line. -/
def append (s : Split maxChars) (text : Text) : Split maxChars :=
  { s with current := s.current ++ s.separator ++ text }

@[simp] theorem flush_current (s : Split maxChars) : s.flush.current = s.reopening := rfl
theorem flush_fresh (s : Split maxChars) : s.flush.current = s.flush.reopening := rfl
@[simp] theorem flush_fence (s : Split maxChars) : s.flush.fence = s.fence := rfl
@[simp] theorem flush_reopening (s : Split maxChars) : s.flush.reopening = s.reopening := rfl
@[simp] theorem flush_closingRoom (s : Split maxChars) : s.flush.closingRoom = s.closingRoom := rfl
@[simp] theorem append_current (s : Split maxChars) (text : Text) :
    (s.append text).current = s.current ++ s.separator ++ text := rfl
@[simp] theorem append_fence (s : Split maxChars) (text : Text) : (s.append text).fence = s.fence := rfl
@[simp] theorem append_parts (s : Split maxChars) (text : Text) : (s.append text).parts = s.parts := rfl
@[simp] theorem append_reopening (s : Split maxChars) (text : Text) :
    (s.append text).reopening = s.reopening := rfl
@[simp] theorem append_closingRoom (s : Split maxChars) (text : Text) :
    (s.append text).closingRoom = s.closingRoom := rfl

theorem length_separator (s : Split maxChars) : s.separator.length = if 0 < s.current.length then 1 else 0 := by
  unfold separator
  split <;> rfl

/-- A part that holds nothing but a reopened fence has room for two units. -/
theorem two_le_room (hmax : 8 ≤ maxChars) {s : Split maxChars} (h : s.current = s.reopening) : 2 ≤ s.room := by
  have hseparator := s.length_separator
  unfold room closingRoom
  rw [h] at hseparator ⊢
  unfold reopening at hseparator ⊢
  cases hfence : s.fence with
  | none =>
    rw [hfence] at hseparator
    simp only [Option.map_none, Option.getD_none, List.length_nil, Nat.lt_irrefl, if_false] at hseparator ⊢
    omega
  | some fence =>
    have := fence.fits
    rw [hfence] at hseparator
    simp at hseparator ⊢
    split at hseparator <;> omega

theorem lastIndexOf_le (text search : Text) (position : Nat) : text.lastIndexOf search position ≤ position := by
  unfold Text.lastIndexOf
  split
  · rename_i i hfound
    have hmem := List.mem_of_find?_eq_some hfound
    simp only [List.mem_reverse, List.mem_range] at hmem
    omega
  · omega

theorem cut_le (s : Split maxChars) (rest : Text) : s.cut rest ≤ s.room.toNat := by
  have hlast := lastIndexOf_le rest [space] (s.room.toNat - 1)
  simp only [cut, offPair]
  split_ifs <;> omega

/-- Two units of room are enough to cut something off. -/
theorem cut_pos {s : Split maxChars} (hroom : 2 ≤ s.room) (rest : Text) : 0 < s.cut rest := by
  simp only [cut, offPair]
  split_ifs <;> omega

end Split

/-- The inner loop, which flushes without a cut only a part that has taken something. -/
def fill (hmax : 8 ≤ maxChars) (s : Split maxChars) (rest : Text) : Split maxChars :=
  if (rest.length : Int) ≤ s.room then s.append rest
  else if 0 < s.cut rest then fill hmax (s.append (rest.take (s.cut rest))).flush (rest.drop (s.cut rest))
  else fill hmax s.flush rest
termination_by 2 * rest.length + if s.current = s.reopening then 0 else 1
decreasing_by
  · have hle := s.cut_le rest
    rw [if_pos (Split.flush_fresh _), List.length_drop]
    omega
  · have hne : s.current ≠ s.reopening := fun heq => by
      have := Split.cut_pos (Split.two_le_room hmax heq) rest
      omega
    rw [if_pos s.flush_fresh, if_neg hne]
    omega

/-- A line that neither opens nor closes a fence goes to the next part where it fits there. -/
def write (hmax : 8 ≤ maxChars) (s : Split maxChars) (line : Text) : Split maxChars :=
  let freshRoom : Int :=
    maxChars - ((s.fence.map fun fence => fence.opening.length + 1).getD 0 : Nat) - s.closingRoom
  let overfull := 0 < s.current.length ∧ maxChars < s.current.length + 1 + line.length + s.closingRoom
  fill hmax (if overfull ∧ (line.length : Int) ≤ freshRoom then s.flush else s) line

/-- One turn of the loop over the lines. -/
def addLine (hmax : 8 ≤ maxChars) (s : Split maxChars) (line : Text) : Split maxChars :=
  match s.fence with
  | some fence =>
    if fence.closedBy line then { s with current := s.current ++ newline :: fence.marker, fence := none }
    else write hmax s line
  | none =>
    match opens maxChars line with
    | some opening =>
      let s := if maxChars < s.current.length + 1 + line.length + 1 + opening.marker.length then s.flush else s
      { s with
        current := if 0 < s.current.length then s.current ++ newline :: line else line
        fence := some opening }
    | none => write hmax s line

/-- The parts of a text; `none` where the limit is refused. -/
def splitMessageText (text : Text) (maxChars : Nat) : Option (List Text) :=
  if hmax : 8 ≤ maxChars then
    let normalized := normalize text
    if normalized.length ≤ maxChars then some [normalized]
    else
      let s := (normalized.splitOn newline).foldl (addLine hmax) ⟨[], [], none⟩
      some (if 0 < s.current.length then s.flush else s).parts
  else none

variable {s : Split maxChars} {fence : CodeFence maxChars} {line rest text : Text} {lines parts : List Text}

theorem normalize_eq_nil (h : normalize text = []) : text = [] := by
  cases text with
  | nil => rfl
  | cons unit rest =>
    rw [normalize, normalizeFrom, Bool.false_and, if_neg Bool.false_ne_true] at h
    split at h <;> cases h

theorem opening_of_opens (h : opens maxChars line = some fence) : fence.opening = line := by
  unfold opens at h
  split at h
  · split at h
    · exact (Option.some.inj h) ▸ rfl
    · cases h
  · cases h

/-! ## The limit -/

namespace Split

/-- What is cut is within the limit, and so is this part with the delimiter that will close it. -/
structure Within (s : Split maxChars) : Prop where
  parts : ∀ part ∈ s.parts, 0 < part.length ∧ part.length ≤ maxChars
  current : s.current.length + s.closingRoom ≤ maxChars

theorem length_part_le (s : Split maxChars) : s.part.length ≤ s.current.length + s.closingRoom := by
  unfold part closingRoom
  cases s.fence with
  | none => exact (List.rdropWhile_prefix isWhiteSpace s.current).length_le
  | some fence => simp

theorem length_reopening_le (s : Split maxChars) : s.reopening.length + s.closingRoom ≤ maxChars := by
  unfold reopening closingRoom
  cases s.fence with
  | none => simp
  | some fence =>
    have := fence.fits
    simp
    omega

theorem Within.flush (h : s.Within) : s.flush.Within := by
  refine ⟨fun part hpart => ?_, s.length_reopening_le⟩
  unfold Split.flush at hpart
  dsimp only at hpart
  split at hpart
  · rename_i hpos
    rcases List.mem_append.mp hpart with hpart | hpart
    · exact h.parts part hpart
    · rw [List.mem_singleton.mp hpart]
      exact ⟨hpos, s.length_part_le.trans h.current⟩
  · exact h.parts part hpart

theorem Within.append (h : s.Within) (hroom : (text.length : Int) ≤ s.room) : (s.append text).Within := by
  refine ⟨h.parts, ?_⟩
  unfold room at hroom
  simp only [append_current, List.length_append, append_closingRoom]
  omega

theorem Within.fill (hmax : 8 ≤ maxChars) (h : s.Within) : (fill hmax s rest).Within := by
  fun_induction ChannelCore.fill hmax s rest with
  | case1 s rest hroom => exact h.append hroom
  | case2 s rest hroom hcut ih =>
    refine ih (h.append ?_).flush
    have hle := s.cut_le rest
    rw [List.length_take]
    omega
  | case3 s rest hroom hcut ih => exact ih h.flush

theorem Within.write (hmax : 8 ≤ maxChars) (h : s.Within) : (write hmax s line).Within := by
  unfold ChannelCore.write
  dsimp only
  split
  · exact h.flush.fill hmax
  · exact h.fill hmax

theorem Within.addLine (hmax : 8 ≤ maxChars) (h : s.Within) : (addLine hmax s line).Within := by
  unfold ChannelCore.addLine
  cases hfence : s.fence with
  | some fence =>
    dsimp only
    split
    · refine ⟨h.parts, ?_⟩
      have hcurrent := h.current
      simp only [closingRoom, hfence, Option.map_some, Option.getD_some] at hcurrent
      simp [closingRoom]
      omega
    · exact h.write hmax
  | none =>
    dsimp only
    split
    · rename_i opening hopens
      have hfits := opening.fits
      rw [opening_of_opens hopens] at hfits
      split
      · have hreopening : s.reopening = [] := by simp [reopening, hfence]
        refine ⟨h.flush.parts, ?_⟩
        simp [closingRoom, hreopening]
        omega
      · refine ⟨h.parts, ?_⟩
        simp only [closingRoom, Option.map_some, Option.getD_some]
        split
        · simp only [List.length_append, List.length_cons]
          omega
        · omega
    · exact h.write hmax

theorem Within.foldl (hmax : 8 ≤ maxChars) (h : s.Within) : (lines.foldl (ChannelCore.addLine hmax) s).Within := by
  induction lines generalizing s with
  | nil => exact h
  | cons line lines ih => exact ih (h.addLine hmax)

theorem within_initial : (⟨[], [], none⟩ : Split maxChars).Within :=
  ⟨fun _ h => absurd h List.not_mem_nil, Nat.zero_le _⟩

end Split

/-- The last part is cut off where it holds something. -/
theorem splitMessageText_eq (hmax : 8 ≤ maxChars) (text : Text) : splitMessageText text maxChars = some
    (if (normalize text).length ≤ maxChars then [normalize text]
    else
      let s := ((normalize text).splitOn newline).foldl (addLine hmax) ⟨[], [], none⟩
      (if 0 < s.current.length then s.flush else s).parts) := by
  rw [splitMessageText, dif_pos hmax]
  exact (apply_ite some _ _ _).symm

/-- A limit of eight units is enough for every text: it has parts, of which none is longer than the limit,
and none is empty unless the text is. -/
theorem splitMessageText_bounded (text : Text) (maxChars : Nat) :
    (maxChars < 8 → splitMessageText text maxChars = none) ∧
    (8 ≤ maxChars → ∃ parts, splitMessageText text maxChars = some parts ∧
      ∀ part ∈ parts, part.length ≤ maxChars ∧ (part = [] → text = [])) := by
  refine ⟨fun hlt => dif_neg (Nat.not_le.mpr hlt), fun hmax => ⟨_, splitMessageText_eq hmax text, ?_⟩⟩
  split
  · rename_i hle
    intro part hpart
    obtain rfl := List.mem_singleton.mp hpart
    exact ⟨hle, normalize_eq_nil⟩
  · have hwithin : (((normalize text).splitOn newline).foldl (addLine hmax) ⟨[], [], none⟩).Within :=
      Split.within_initial.foldl hmax
    have hfinish : ∀ s : Split maxChars, s.Within → (if 0 < s.current.length then s.flush else s).Within := by
      intro s hs
      split
      · exact hs.flush
      · exact hs
    intro part hpart
    obtain ⟨hpos, hle⟩ := (hfinish _ hwithin).parts part hpart
    refine ⟨hle, fun hnil => ?_⟩
    rw [hnil] at hpos
    exact absurd hpos (Nat.lt_irrefl 0)

end Opensteer.ChannelCore
