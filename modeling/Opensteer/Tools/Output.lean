import Opensteer.Core.Coding
import Opensteer.Framework.Decimal

/-!
# Tool output

`packages/core/src/tool-output.ts`: the durable text of a tool's output, and the longest prefix of a text in so
many bytes. What the code throws is an error of its own; so is what its decoder throws.
-/

namespace Opensteer.Tools

def toolOutputTextMaxBytes : Nat := 50 * 1024

def truncationMarkerReserveBytes : Nat := 128

inductive ToolOutputError
  | exceededLimit
  | notAnInteger
  | invalidData
deriving DecidableEq, Repr

structure ToolOutputTruncation where
  omittedBytes : Int
  originalBytes : Nat
deriving DecidableEq, Repr

structure ToolOutput where
  text : Text
  truncation : Option ToolOutputTruncation := none
deriving DecidableEq, Repr

def utf8ByteLength (value : Text) : Nat := (TextEncoder.encode value).length

/-- `isContinuationByte(bytes[boundary]!)`, of a byte that is there. -/
def isContinuationAt (bytes : List UInt8) (boundary : Nat) : Bool := (bytes[boundary]?).any Utf8.isContinuation

/-- The loop of `utf8PrefixBoundary`, from where it starts. -/
def descend (bytes : List UInt8) : Nat → Nat
  | 0 => 0
  | boundary + 1 => if isContinuationAt bytes (boundary + 1) then descend bytes boundary else boundary + 1

def utf8PrefixBoundary (bytes : List UInt8) (maximumBytes : Nat) : Nat := descend bytes (min maximumBytes bytes.length)

def utf8SuffixBoundary (bytes : List UInt8) (minimumStart : Int) : Nat :=
  minimumStart.toNat + ((bytes.drop minimumStart.toNat).takeWhile Utf8.isContinuation).length

/-- `${n}`. -/
def decimal (n : Int) : List Char :=
  (if n < 0 then ['-'] else []) ++ (Decimal.digitsOf n.natAbs).map fun digit => Char.ofNat (48 + digit)

def omissionMarker (omittedBytes : Int) : List Char :=
  "\n… ".toList ++ decimal omittedBytes ++ " bytes omitted …\n".toList

structure HeadAndTail where
  omittedBytes : Int
  text : Text
deriving DecidableEq, Repr

def decode (bytes : List UInt8) : Except ToolOutputError Text :=
  match TextDecoder.decode bytes with
  | some text => .ok text
  | none => .error .invalidData

def utf8HeadAndTail (bytes : List UInt8) (keptBytes : Nat) : Except ToolOutputError HeadAndTail := do
  let headBudget := keptBytes / 2
  let headEnd := utf8PrefixBoundary bytes headBudget
  let tailStart := utf8SuffixBoundary bytes ((bytes.length : Int) - ((keptBytes : Int) - headBudget))
  let omittedBytes := (tailStart : Int) - headEnd
  let head ← decode (bytes.take headEnd)
  let tail ← decode (bytes.drop tailStart)
  return ⟨omittedBytes, head ++ ofScalars (omissionMarker omittedBytes) ++ tail⟩

/-- `text.replaceAll("\u0000", "\uFFFD")`. -/
def sanitize (text : Text) : Text := text.map fun unit => if unit = 0 then 0xfffd else unit

def createToolOutput (text : Text) : Except ToolOutputError ToolOutput := do
  let sanitized := sanitize text
  let bytes := TextEncoder.encode sanitized
  if bytes.length ≤ toolOutputTextMaxBytes then return { text := sanitized }
  let bounded ← utf8HeadAndTail bytes (toolOutputTextMaxBytes - truncationMarkerReserveBytes)
  if toolOutputTextMaxBytes < utf8ByteLength bounded.text then throw .exceededLimit
  return { text := bounded.text, truncation := some ⟨bounded.omittedBytes, bytes.length⟩ }

/-- Of a number of bytes that is an integer. -/
def utf8Prefix (value : Text) (maximumBytes : Int) : Except ToolOutputError Text := do
  if maximumBytes < 0 then throw .notAnInteger
  let bytes := TextEncoder.encode value
  if (bytes.length : Int) ≤ maximumBytes then return value
  decode (bytes.take (utf8PrefixBoundary bytes maximumBytes.toNat))

/-! ## Where a text is cut -/

theorem descend_spec (text : List Char) {n : Nat} (h : n ≤ Utf8.size text) :
    Utf8.Cut text (descend (Utf8.bytes text) n) ∧ descend (Utf8.bytes text) n ≤ n ∧
      ∀ j, Utf8.Cut text j → j ≤ n → j ≤ descend (Utf8.bytes text) n := by
  induction n with
  | zero => exact ⟨Utf8.cut_zero text, Nat.le_refl 0, fun j _ hj => hj⟩
  | succ n ih =>
    obtain ⟨hcut, hle, hlast⟩ := ih (Nat.le_of_succ_le h)
    have hend : n + 1 = Utf8.size text → Utf8.Cut text (n + 1) := fun heq => heq ▸ Utf8.cut_size text
    unfold descend isContinuationAt
    cases hbyte : (Utf8.bytes text)[n + 1]? with
    | none =>
      have hlength : Utf8.size text ≤ n + 1 := List.getElem?_eq_none_iff.mp hbyte
      exact ⟨hend (Nat.le_antisymm h hlength), Nat.le_refl _, fun j _ hj => hj⟩
    | some byte =>
      have hiff := Utf8.cut_iff hbyte
      rw [Option.any_some]
      split
      · rename_i hcontinuation
        refine ⟨hcut, Nat.le_succ_of_le hle, fun j hj hjn => ?_⟩
        rcases Nat.lt_or_ge n j with hlt | hge
        · have hj1 : j = n + 1 := by omega
          rw [hj1, hiff, hcontinuation] at hj
          exact absurd hj.symm Bool.false_ne_true
        · exact hlast j hj hge
      · rename_i hcontinuation
        exact ⟨hiff.mpr (Bool.eq_false_iff.mpr hcontinuation), Nat.le_refl _, fun j _ hj => hj⟩

theorem utf8PrefixBoundary_bytes (text : List Char) (n : Nat) :
    utf8PrefixBoundary (Utf8.bytes text) n = Utf8.size (Utf8.firstWithin n text) := by
  obtain ⟨hcut, hle, hlast⟩ := descend_spec text (Nat.min_le_right n (Utf8.size text))
  refine (Utf8.size_firstWithin_of_cut hcut (Nat.le_trans hle (Nat.min_le_left _ _)) fun j hj hjn => ?_).symm
  refine hlast j hj (Nat.le_min.mpr ⟨hjn, ?_⟩)
  obtain ⟨before, hbefore, rfl⟩ := hj
  exact Utf8.size_le_of_isPrefix hbefore

/-- From `start` on, continuation bytes are passed up to one that is none. -/
theorem takeWhile_continuation (bytes : List UInt8) (start : Nat) {stop : Nat}
    (hstop : stop = start + ((bytes.drop start).takeWhile Utf8.isContinuation).length) :
    (∀ byte ∈ bytes[stop]?, Utf8.isContinuation byte = false) ∧
      ∀ j, start ≤ j → j < stop → ∃ byte, bytes[j]? = some byte ∧ Utf8.isContinuation byte = true := by
  have hsplit := List.takeWhile_append_dropWhile (p := Utf8.isContinuation) (l := bytes.drop start)
  constructor
  · intro byte hbyte
    have hhead : bytes[stop]? = ((bytes.drop start).dropWhile Utf8.isContinuation).head? := by
      calc bytes[stop]?
        _ = (bytes.drop start)[((bytes.drop start).takeWhile Utf8.isContinuation).length]? := by
          rw [hstop, List.getElem?_drop]
        _ = ((bytes.drop start).takeWhile Utf8.isContinuation ++ (bytes.drop start).dropWhile Utf8.isContinuation)[
              ((bytes.drop start).takeWhile Utf8.isContinuation).length]? := by rw [hsplit]
        _ = ((bytes.drop start).dropWhile Utf8.isContinuation).head? := by
          rw [List.getElem?_append_right (Nat.le_refl _), Nat.sub_self, List.head?_eq_getElem?]
    have hnot := List.head?_dropWhile_not Utf8.isContinuation (bytes.drop start)
    rw [← hhead, Option.mem_def.mp hbyte] at hnot
    exact Bool.eq_false_iff.mpr (by simpa using hnot)
  · intro j hstart hj
    have hlt : j - start < ((bytes.drop start).takeWhile Utf8.isContinuation).length := by
      omega
    have hget : bytes[j]? = ((bytes.drop start).takeWhile Utf8.isContinuation)[j - start]? := by
      rw [← List.getElem?_append_left hlt, hsplit, List.getElem?_drop, Nat.add_sub_cancel' hstart]
    rw [List.getElem?_eq_getElem hlt] at hget
    exact ⟨_, hget, List.all_eq_true.mp List.all_takeWhile _ (List.getElem_mem hlt)⟩

theorem utf8SuffixBoundary_bytes (text : List Char) {n : Nat} (h : n ≤ Utf8.size text) :
    utf8SuffixBoundary (Utf8.bytes text) (((Utf8.bytes text).length : Int) - n) + Utf8.size (Utf8.lastWithin n text) =
      Utf8.size text := by
  have hstart : (((Utf8.bytes text).length : Int) - n).toNat = Utf8.size text - n := by
    rw [Utf8.size]
    omega
  unfold utf8SuffixBoundary
  rw [hstart]
  obtain ⟨hstop, hpassed⟩ := takeWhile_continuation (Utf8.bytes text) (Utf8.size text - n) rfl
  generalize hk : Utf8.size text - n + (((Utf8.bytes text).drop (Utf8.size text - n)).takeWhile Utf8.isContinuation).length = k
    at hstop hpassed ⊢
  refine Utf8.size_lastWithin_of_cut ?_ (by omega) fun j hj hjn => ?_
  · cases hbyte : (Utf8.bytes text)[k]? with
    | none =>
      have hle : k ≤ Utf8.size text := by
        have hlength := (List.takeWhile_prefix (p := Utf8.isContinuation) (l := (Utf8.bytes text).drop (Utf8.size text - n))).length_le
        rw [List.length_drop, ← Utf8.size] at hlength
        omega
      rw [Nat.le_antisymm hle (List.getElem?_eq_none_iff.mp hbyte)]
      exact Utf8.cut_size text
    | some byte => exact (Utf8.cut_iff hbyte).mpr (hstop byte hbyte)
  · by_contra hlt
    obtain ⟨byte, hbyte, hcontinuation⟩ := hpassed j (by omega) (Nat.not_le.mp hlt)
    rw [Utf8.cut_iff hbyte, hcontinuation] at hj
    exact Bool.false_ne_true hj.symm

end Opensteer.Tools
