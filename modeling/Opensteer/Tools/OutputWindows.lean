import Opensteer.Tools.Output

/-!
# The windows of tool output

What is kept of a text that is too long are a prefix and a suffix of it at character boundaries
(`utf8HeadAndTail_bytes`), except that the decoder drops a byte order mark that either begins with. So the
windows are exact if neither does (`exact_iff`).
-/

namespace Opensteer.Tools

open Utf8

theorem ok_bind {ε α β : Type} (a : α) (f : α → Except ε β) : ((.ok a : Except ε α) >>= f) = f a := rfl

theorem decode_bytes (chars : List Char) : decode (bytes chars) = .ok (ofScalars (unmarked chars)) := by
  rw [decode, Opensteer.decode_bytes]

theorem size_unmarked_le (chars : List Char) : size (unmarked chars) ≤ size chars := by
  unfold unmarked
  split
  · rename_i h
    obtain ⟨rest, rfl⟩ := List.head?_eq_some_iff.mp h
    rw [List.tail_cons, size_cons]
    exact Nat.le_add_left _ _
  · exact Nat.le_refl _

theorem unmarked_of_not {chars : List Char} (h : chars.head? ≠ some '\uFEFF') : unmarked chars = chars := if_neg h

theorem size_unmarked_lt {chars : List Char} (h : chars.head? = some '\uFEFF') : size (unmarked chars) < size chars := by
  obtain ⟨rest, rfl⟩ := List.head?_eq_some_iff.mp h
  rw [unmarked, if_pos h, List.tail_cons, size_cons]
  have hpos := ('\uFEFF').utf8Size_pos
  omega

/-! ## The marker -/

theorem size_of_ascii {chars : List Char} (h : ∀ c ∈ chars, c.utf8Size = 1) : size chars = chars.length := by
  induction chars with
  | nil => rfl
  | cons c chars ih =>
    obtain ⟨hc, hchars⟩ := List.forall_mem_cons.mp h
    rw [size_cons, hc, ih hchars, List.length_cons, Nat.add_comm]

theorem size_decimal (n : Nat) : size (decimal n) = (Decimal.digitsOf n).length := by
  have hdigit : ∀ d < 10, (Char.ofNat (48 + d)).utf8Size = 1 := by
    decide
  rw [decimal, if_neg (by omega), List.nil_append, Int.natAbs_natCast, size_of_ascii, List.length_map]
  intro c hc
  obtain ⟨d, hd, rfl⟩ := List.mem_map.mp hc
  exact hdigit d (Decimal.lt_of_mem_digitsOf hd)

theorem size_omissionMarker (n : Nat) : size (omissionMarker n) = 24 + (Decimal.digitsOf n).length := by
  have hbefore : size "\n… ".toList = 5 := by
    decide
  have hafter : size " bytes omitted …\n".toList = 19 := by
    decide
  rw [omissionMarker, size_append, size_append, size_decimal, hbefore, hafter]
  omega

/-! ## What is kept -/

/-- How much `kept` bytes at the ends leave out. -/
def omitted (chars : List Char) (kept : Nat) : Nat :=
  size chars - size (firstWithin (kept / 2) chars) - size (lastWithin (kept - kept / 2) chars)

theorem kept_le (chars : List Char) (kept : Nat) :
    size (firstWithin (kept / 2) chars) + size (lastWithin (kept - kept / 2) chars) ≤ kept := by
  have hhead := size_firstWithin (kept / 2) chars
  have htail := size_lastWithin (kept - kept / 2) chars
  omega

theorem utf8HeadAndTail_bytes {chars : List Char} {kept : Nat} (h : kept ≤ size chars) :
    utf8HeadAndTail (bytes chars) kept = .ok ⟨omitted chars kept,
      ofScalars (unmarked (firstWithin (kept / 2) chars) ++ omissionMarker (omitted chars kept) ++
        unmarked (lastWithin (kept - kept / 2) chars))⟩ := by
  have hkept := kept_le chars kept
  have hbudget : (kept : Int) - (kept / 2 : Nat) = (kept - kept / 2 : Nat) := by
    omega
  have htail := utf8SuffixBoundary_bytes chars (n := kept - kept / 2) (by omega)
  obtain ⟨before, hbefore⟩ := lastWithin_suffix (kept - kept / 2) chars
  have hsize : size before + size (lastWithin (kept - kept / 2) chars) = size chars := by
    rw [← size_append, hbefore]
  have homitted : ((utf8SuffixBoundary (bytes chars) ((bytes chars).length - (kept - kept / 2 : Nat)) : Nat) : Int) -
      size (firstWithin (kept / 2) chars) = omitted chars kept := by
    unfold omitted
    omega
  unfold utf8HeadAndTail
  dsimp only
  rw [hbudget, utf8PrefixBoundary_bytes, homitted, take_size (firstWithin_isPrefix _ _), decode_bytes,
    show utf8SuffixBoundary (bytes chars) ((bytes chars).length - (kept - kept / 2 : Nat)) = size before by omega,
    drop_size hbefore, decode_bytes, ofScalars_append, ofScalars_append]
  rfl

/-- The text with every U+0000 replaced, as its scalar values. -/
def replaced (text : Text) : List Char := scalars (sanitize text)

def keptBytes : Nat := toolOutputTextMaxBytes - truncationMarkerReserveBytes

def head (text : Text) : List Char := firstWithin (keptBytes / 2) (replaced text)

def tail (text : Text) : List Char := lastWithin (keptBytes - keptBytes / 2) (replaced text)

theorem size_replaced (text : Text) : size (replaced text) ≤ 3 * text.length := by
  have hlength : (sanitize text).length = text.length := List.length_map _
  rw [← hlength]
  exact size_scalars_le (sanitize text)

/-- The reserve is enough for the marker of every string: none has 2^53 units. -/
theorem size_marker_le {text : Text} (h : text.length < 2 ^ 53) :
    size (omissionMarker (omitted (replaced text) keptBytes)) ≤ truncationMarkerReserveBytes := by
  have hsize := size_replaced text
  have hlt : omitted (replaced text) keptBytes < 10 ^ 104 := by
    unfold omitted
    omega
  have hdigits := (Decimal.length_digitsOf_le (by decide)).mpr hlt
  rw [size_omissionMarker]
  show 24 + _ ≤ 128
  omega

theorem size_written_le {text : Text} (h : text.length < 2 ^ 53) :
    utf8ByteLength (ofScalars (unmarked (head text) ++ omissionMarker (omitted (replaced text) keptBytes) ++
      unmarked (tail text))) ≤ toolOutputTextMaxBytes := by
  have hmarker := size_marker_le h
  have hkept : size (head text) + size (tail text) ≤ keptBytes := kept_le (replaced text) keptBytes
  have hhead := size_unmarked_le (head text)
  have htail := size_unmarked_le (tail text)
  have hreserve : keptBytes + truncationMarkerReserveBytes = toolOutputTextMaxBytes := rfl
  rw [utf8ByteLength, encode_ofScalars, ← size, size_append, size_append]
  omega

/-- Of a text that is too long its windows are kept. -/
theorem createToolOutput_long {text : Text} (hlength : text.length < 2 ^ 53)
    (h : toolOutputTextMaxBytes < size (replaced text)) :
    createToolOutput text = .ok {
      text := ofScalars (unmarked (head text) ++ omissionMarker (omitted (replaced text) keptBytes) ++ unmarked (tail text))
      truncation := some ⟨omitted (replaced text) keptBytes, size (replaced text)⟩ } := by
  have hbounded := Nat.not_lt.mpr (size_written_le hlength)
  have hlong : ¬(TextEncoder.encode (sanitize text)).length ≤ toolOutputTextMaxBytes := Nat.not_le.mpr h
  have hwindows : utf8HeadAndTail (bytes (replaced text)) keptBytes = .ok ⟨omitted (replaced text) keptBytes, ofScalars
      (unmarked (head text) ++ omissionMarker (omitted (replaced text) keptBytes) ++ unmarked (tail text))⟩ :=
    utf8HeadAndTail_bytes (Nat.le_trans (Nat.sub_le _ _) (Nat.le_of_lt h))
  unfold createToolOutput
  dsimp only
  rw [if_neg hlong]
  change (utf8HeadAndTail (bytes (replaced text)) keptBytes >>= _) = _
  rw [hwindows, ok_bind]
  dsimp only
  rw [if_neg hbounded]
  rfl

theorem createToolOutput_short {text : Text} (h : size (replaced text) ≤ toolOutputTextMaxBytes) :
    createToolOutput text = .ok { text := sanitize text } := by
  unfold createToolOutput
  dsimp only
  exact if_pos h

/-! ## Exact windows -/

/-- The text is a prefix and a suffix of the replaced text around a marker of what is between. -/
def ExactWindows (text : Text) (o : ToolOutput) : Prop :=
  ∃ (first last : List Char) (omittedBytes : Nat),
    o.truncation = some ⟨omittedBytes, size (replaced text)⟩ ∧
    o.text = ofScalars (first ++ omissionMarker omittedBytes ++ last) ∧
    first <+: replaced text ∧ last <:+ replaced text ∧
    size first + omittedBytes + size last = size (replaced text) ∧
    0 < omittedBytes ∧ omittedBytes < size (replaced text)

/-- What the output of a text is to be. -/
def Exact (text : Text) (o : ToolOutput) : Prop :=
  if size (replaced text) ≤ toolOutputTextMaxBytes then o = { text := sanitize text } else ExactWindows text o

/-- The longest prefix in so many bytes, read as scalar values. -/
def LongestPrefix (value : Text) (n : Nat) (r : Text) : Prop :=
  scalars r <+: scalars value ∧ size (scalars r) ≤ n ∧
    ∀ before, before <+: scalars value → size before ≤ n → before <+: scalars r

/-- No byte order mark begins a window that is cut. -/
def WindowsUnmarked (text : Text) : Prop :=
  size (replaced text) ≤ toolOutputTextMaxBytes ∨
    (replaced text).head? ≠ some '\uFEFF' ∧ (tail text).head? ≠ some '\uFEFF'

/-- No byte order mark begins a prefix that is cut. -/
def PrefixUnmarked (value : Text) (n : Nat) : Prop :=
  size (scalars value) ≤ n ∨ n < 3 ∨ (scalars value).head? ≠ some '\uFEFF'

theorem head?_firstWithin {n : Nat} {chars : List Char} (h : 3 ≤ n) :
    (firstWithin n chars).head? = some '\uFEFF' ↔ chars.head? = some '\uFEFF' := by
  cases chars with
  | nil => exact Iff.rfl
  | cons c chars =>
    unfold firstWithin
    split
    · exact Iff.rfl
    · rename_i hle
      refine iff_of_false (fun h => by cases h) fun hhead => hle ?_
      rw [Option.some.inj hhead]
      exact h

theorem omitted_pos {text : Text} (h : toolOutputTextMaxBytes < size (replaced text)) :
    0 < omitted (replaced text) keptBytes ∧ omitted (replaced text) keptBytes < size (replaced text) := by
  have hkept := kept_le (replaced text) keptBytes
  have hreserve : keptBytes + truncationMarkerReserveBytes = toolOutputTextMaxBytes := rfl
  have hhead : 0 < size (firstWithin (keptBytes / 2) (replaced text)) := by
    cases hchars : replaced text with
    | nil =>
      rw [hchars] at h
      exact absurd h (Nat.not_lt_zero _)
    | cons c chars =>
      have hle : c.utf8Size ≤ keptBytes / 2 := Nat.le_trans c.utf8Size_le_four (by decide)
      rw [firstWithin, if_pos hle, size_cons]
      exact Nat.add_pos_left c.utf8Size_pos _
  unfold omitted
  omega

theorem size_windows {text : Text} (h : toolOutputTextMaxBytes < size (replaced text)) :
    size (head text) + omitted (replaced text) keptBytes + size (tail text) = size (replaced text) := by
  have hkept := kept_le (replaced text) keptBytes
  have hreserve : keptBytes + truncationMarkerReserveBytes = toolOutputTextMaxBytes := rfl
  unfold head tail omitted
  omega

theorem exactWindows_iff {text : Text} {o : ToolOutput} (h : toolOutputTextMaxBytes < size (replaced text))
    (hlength : text.length < 2 ^ 53) (ho : createToolOutput text = .ok o) :
    ExactWindows text o ↔ (replaced text).head? ≠ some '\uFEFF' ∧ (tail text).head? ≠ some '\uFEFF' := by
  have hsize := size_windows h
  have hhead : (head text).head? = some '\uFEFF' ↔ (replaced text).head? = some '\uFEFF' := head?_firstWithin (by decide)
  rw [createToolOutput_long hlength h] at ho
  rw [← Except.ok.inj ho]
  constructor
  · rintro ⟨first, last, omittedBytes, htruncation, htext, -, -, hcount, -, -⟩
    have homitted : omitted (replaced text) keptBytes = omittedBytes :=
      Int.ofNat.inj (ToolOutputTruncation.mk.inj (Option.some.inj htruncation)).1
    have hscalars := congrArg scalars htext
    have hbytes : size (unmarked (head text)) + size (unmarked (tail text)) = size first + size last := by
      simp only [scalars_ofScalars, homitted] at hscalars
      have hlengths := congrArg size hscalars
      rw [size_append, size_append, size_append, size_append] at hlengths
      omega
    have hhead' := size_unmarked_le (head text)
    have htail' := size_unmarked_le (tail text)
    refine ⟨fun hmark => ?_, fun hmark => ?_⟩
    · have hlt := size_unmarked_lt (hhead.mpr hmark)
      omega
    · have hlt := size_unmarked_lt hmark
      omega
  · rintro ⟨hfirst, hlast⟩
    refine ⟨head text, tail text, omitted (replaced text) keptBytes, rfl, ?_, firstWithin_isPrefix _ _,
      lastWithin_suffix _ _, hsize, omitted_pos h⟩
    rw [unmarked_of_not (mt hhead.mp hfirst), unmarked_of_not hlast]

theorem createToolOutput_exact_iff {text : Text} (hlength : text.length < 2 ^ 53) :
    ∃ o, createToolOutput text = .ok o ∧ utf8ByteLength o.text ≤ toolOutputTextMaxBytes ∧
      (Exact text o ↔ WindowsUnmarked text) := by
  by_cases h : size (replaced text) ≤ toolOutputTextMaxBytes
  · refine ⟨_, createToolOutput_short h, h, iff_of_true ?_ (.inl h)⟩
    rw [Exact, if_pos h]
  · have hlong := Nat.not_le.mp h
    refine ⟨_, createToolOutput_long hlength hlong, ?_, ?_⟩
    · dsimp only
      exact size_written_le hlength
    · rw [Exact, if_neg h, exactWindows_iff hlong hlength (createToolOutput_long hlength hlong)]
      exact ⟨.inr, fun hunmarked => hunmarked.resolve_left h⟩

/-- Of a value that is too long the longest prefix is kept. -/
theorem utf8Prefix_long {value : Text} {n : Nat} (h : n < size (scalars value)) :
    utf8Prefix value n = .ok (ofScalars (unmarked (firstWithin n (scalars value)))) := by
  have hlong : ¬((TextEncoder.encode value).length : Int) ≤ n := by
    have hlt : n < (TextEncoder.encode value).length := h
    omega
  unfold utf8Prefix
  rw [if_neg (by omega)]
  dsimp only
  rw [if_neg hlong, Int.toNat_natCast, TextEncoder.encode, utf8PrefixBoundary_bytes, take_size (firstWithin_isPrefix _ _),
    decode_bytes]

theorem utf8Prefix_short {value : Text} {n : Nat} (h : size (scalars value) ≤ n) : utf8Prefix value n = .ok value := by
  have hshort : ((TextEncoder.encode value).length : Int) ≤ n := Int.ofNat_le.mpr h
  unfold utf8Prefix
  rw [if_neg (by omega)]
  exact if_pos hshort

theorem utf8Prefix_longest_iff (value : Text) (n : Nat) :
    ∃ r, utf8Prefix value n = .ok r ∧ (LongestPrefix value n r ↔ PrefixUnmarked value n) := by
  by_cases h : size (scalars value) ≤ n
  · refine ⟨value, utf8Prefix_short h, iff_of_true ⟨List.prefix_refl _, h, fun _ hbefore _ => hbefore⟩ (.inl h)⟩
  refine ⟨_, utf8Prefix_long (Nat.not_le.mp h), ?_⟩
  rw [LongestPrefix, scalars_ofScalars]
  constructor
  · rintro ⟨-, -, hlongest⟩
    by_contra hmarked
    rw [PrefixUnmarked, not_or, not_or, not_not, Nat.not_lt] at hmarked
    obtain ⟨-, hn, hhead⟩ := hmarked
    have hle := size_le_of_isPrefix (hlongest _ (firstWithin_isPrefix n _) (size_firstWithin n _))
    have hlt := size_unmarked_lt ((head?_firstWithin hn).mpr hhead)
    omega
  · intro hunmarked
    have hkept : unmarked (firstWithin n (scalars value)) = firstWithin n (scalars value) := by
      rcases hunmarked.resolve_left h with hn | hhead
      · refine unmarked_of_not fun hmark => ?_
        obtain ⟨rest, hrest⟩ := List.head?_eq_some_iff.mp hmark
        have hsize := size_firstWithin n (scalars value)
        rw [hrest, size_cons, show ('\uFEFF').utf8Size = 3 from rfl] at hsize
        omega
      · refine unmarked_of_not fun hmark => hhead ?_
        obtain ⟨rest, hrest⟩ := List.head?_eq_some_iff.mp hmark
        obtain ⟨after, hafter⟩ := firstWithin_isPrefix n (scalars value)
        rw [← hafter, hrest]
        rfl
    rw [hkept]
    exact ⟨firstWithin_isPrefix _ _, size_firstWithin _ _, fun _ hbefore hsize => prefix_firstWithin hbefore hsize⟩

/-! ## Tool output -/

/-- Tool output never throws and is never too long. Its windows are exact, and the longest prefix is the
longest, unless a byte order mark begins what is cut. -/
theorem exact_iff (text value : Text) (n : Nat) :
    (text.length < 2 ^ 53 → ∃ o, createToolOutput text = .ok o ∧
      utf8ByteLength o.text ≤ toolOutputTextMaxBytes ∧ (Exact text o ↔ WindowsUnmarked text)) ∧
    ∃ r, utf8Prefix value n = .ok r ∧ (LongestPrefix value n r ↔ PrefixUnmarked value n) :=
  ⟨fun hlength => createToolOutput_exact_iff hlength, utf8Prefix_longest_iff value n⟩

theorem exact_iff_short : ∃ o, createToolOutput [0x61, 0] = .ok o ∧ utf8ByteLength o.text ≤ toolOutputTextMaxBytes ∧
    (Exact [0x61, 0] o ↔ WindowsUnmarked [0x61, 0]) :=
  (exact_iff [0x61, 0] [] 0).1 (by decide)

/-- A text that is too long and begins with a byte order mark. -/
def marked : Text := 0xfeff :: List.replicate (2 * toolOutputTextMaxBytes) 0x61

theorem length_le_size (text : Text) : text.length ≤ 2 * size (scalars text) := by
  fun_induction scalars text with
  | case1 => exact Nat.zero_le _
  | case2 unit =>
    have hpos := (scalar unit).utf8Size_pos
    rw [size_cons, List.length_singleton]
    omega
  | case3 high low rest _ ih =>
    have hpos := (paired high low).utf8Size_pos
    rw [size_cons, List.length_cons, List.length_cons]
    omega
  | case4 high low rest _ ih =>
    have hpos := (scalar high).utf8Size_pos
    rw [size_cons, List.length_cons]
    omega

theorem not_exact_of_marked {text : Text} (hlength : text.length < 2 ^ 53)
    (hlong : ¬size (replaced text) ≤ toolOutputTextMaxBytes) (hmark : (replaced text).head? = some '\uFEFF') :
    ∃ o, createToolOutput text = .ok o ∧ ¬Exact text o := by
  obtain ⟨o, ho, -, hiff⟩ := createToolOutput_exact_iff hlength
  exact ⟨o, ho, fun hexact => ((hiff.mp hexact).resolve_left hlong).1 hmark⟩

theorem head?_replaced_marked (rest : Text) : (replaced (0xfeff :: rest)).head? = some '\uFEFF' := by
  rw [replaced, sanitize, List.map_cons, scalars_cons (by decide), List.head?_cons]
  decide

/-- Its head window is not a prefix of it, and a prefix of such a text is not the longest. -/
theorem not_exact_marked : (∃ o, createToolOutput marked = .ok o ∧ ¬Exact marked o) ∧
    utf8Prefix [0xfeff, 0x61, 0x62] 4 = .ok [0x61] ∧ ¬LongestPrefix [0xfeff, 0x61, 0x62] 4 [0x61] := by
  have hlength : marked.length = 2 * toolOutputTextMaxBytes + 1 := by
    rw [marked, List.length_cons, List.length_replicate]
  have hlong : ¬size (replaced marked) ≤ toolOutputTextMaxBytes := by
    have hle := length_le_size (sanitize marked)
    rw [sanitize, List.length_map, hlength] at hle
    unfold replaced sanitize
    omega
  have hshort : marked.length < 2 ^ 53 := by
    rw [hlength]
    decide
  refine ⟨?_, by decide +kernel, ?_⟩
  · exact not_exact_of_marked hshort hlong (head?_replaced_marked _)
  · rintro ⟨-, -, hlongest⟩
    have hprefix := hlongest ['\uFEFF', 'a'] (by decide) (by decide)
    exact absurd hprefix (by decide)

end Opensteer.Tools
