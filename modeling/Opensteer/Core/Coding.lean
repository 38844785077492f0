import Opensteer.Core.Json
import Opensteer.Framework.Utf8

/-!
# Texts and bytes

`TextEncoder` and `TextDecoder` of the Encoding Standard. A text is encoded by its scalar values, for which a
surrogate in no pair is U+FFFD.
-/

namespace Opensteer

def isHighSurrogate (unit : UInt16) : Bool := 0xd800 ≤ unit && unit ≤ 0xdbff

/-- The scalar value of a unit in no pair. -/
def scalar (unit : UInt16) : Char :=
  if isHighSurrogate unit || isLowSurrogate unit then '\uFFFD' else Char.ofNat unit.toNat

def paired (high low : UInt16) : Char :=
  Char.ofNat (0x10000 + (high.toNat - 0xd800) * 0x400 + (low.toNat - 0xdc00))

/-- The scalar values of a text. -/
def scalars : Text → List Char
  | [] => []
  | [unit] => [scalar unit]
  | high :: low :: rest =>
    if isHighSurrogate high && isLowSurrogate low then paired high low :: scalars rest
    else scalar high :: scalars (low :: rest)

/-- The text of scalar values. -/
def ofScalars (chars : List Char) : Text := units (String.ofList chars)

def TextEncoder.encode (text : Text) : List UInt8 := Utf8.bytes (scalars text)

/-- `decode` of a decoder that is fatal, and drops a byte order mark. -/
def TextDecoder.decode (bytes : List UInt8) : Option Text :=
  (Utf8.decode? (if [0xef, 0xbb, 0xbf].isPrefixOf bytes then bytes.drop 3 else bytes)).map ofScalars

/-! ## Scalar values -/

theorem scalars_cons {unit : UInt16} (h : isHighSurrogate unit = false) (rest : Text) :
    scalars (unit :: rest) = scalar unit :: scalars rest := by
  cases rest with
  | nil => rfl
  | cons next rest =>
    rw [scalars, if_neg]
    rw [h, Bool.false_and]
    exact Bool.false_ne_true

theorem scalars_pair {high low : UInt16} (hhigh : isHighSurrogate high = true) (hlow : isLowSurrogate low = true)
    (rest : Text) : scalars (high :: low :: rest) = paired high low :: scalars rest := by
  rw [scalars, if_pos]
  rw [hhigh, hlow]
  rfl

/-- The scalar value of a character that is one unit. -/
theorem scalar_ofNat (c : Char) (h : c.toNat < 0x10000) :
    isHighSurrogate (UInt16.ofNat c.toNat) = false ∧ scalar (UInt16.ofNat c.toNat) = c := by
  have hcode : (UInt16.ofNat c.toNat).toNat = c.toNat := UInt16.toNat_ofNat_of_lt' h
  have hvalid := char_toNat_lt c
  have hhigh : isHighSurrogate (UInt16.ofNat c.toNat) = false := by
    simp only [isHighSurrogate, Bool.and_eq_false_iff, decide_eq_false_iff_not, UInt16.le_iff_toNat_le, hcode]
    rcases hvalid with hlt | hgt
    · exact .inl (by show ¬55296 ≤ c.toNat; omega)
    · exact .inr (by show ¬c.toNat ≤ 56319; omega)
  have hlow : isLowSurrogate (UInt16.ofNat c.toNat) = false := by
    simp only [isLowSurrogate, Bool.and_eq_false_iff, decide_eq_false_iff_not, UInt16.le_iff_toNat_le, hcode]
    rcases hvalid with hlt | hgt
    · exact .inl (by show ¬56320 ≤ c.toNat; omega)
    · exact .inr (by show ¬c.toNat ≤ 57343; omega)
  refine ⟨hhigh, ?_⟩
  rw [scalar, hhigh, hlow, hcode]
  exact Char.ofNat_toNat c

/-- The scalar value of a character that is two units. -/
theorem paired_ofNat (c : Char) (h : ¬c.toNat < 0x10000) :
    isHighSurrogate (UInt16.ofNat (0xd800 + (c.toNat - 0x10000) / 0x400)) = true ∧
    isLowSurrogate (UInt16.ofNat (0xdc00 + (c.toNat - 0x10000) % 0x400)) = true ∧
    paired (UInt16.ofNat (0xd800 + (c.toNat - 0x10000) / 0x400)) (UInt16.ofNat (0xdc00 + (c.toNat - 0x10000) % 0x400)) = c := by
  have hvalid := char_toNat_lt c
  have hhigh : (UInt16.ofNat (0xd800 + (c.toNat - 0x10000) / 0x400)).toNat = 0xd800 + (c.toNat - 0x10000) / 0x400 :=
    UInt16.toNat_ofNat_of_lt' (by rw [UInt16.size]; omega)
  have hlow : (UInt16.ofNat (0xdc00 + (c.toNat - 0x10000) % 0x400)).toNat = 0xdc00 + (c.toNat - 0x10000) % 0x400 :=
    UInt16.toNat_ofNat_of_lt' (by rw [UInt16.size]; omega)
  refine ⟨?_, ?_, ?_⟩
  · simp only [isHighSurrogate, Bool.and_eq_true, decide_eq_true_eq, UInt16.le_iff_toNat_le, hhigh]
    exact ⟨by show 55296 ≤ _; omega, by show _ ≤ 56319; omega⟩
  · simp only [isLowSurrogate, Bool.and_eq_true, decide_eq_true_eq, UInt16.le_iff_toNat_le, hlow]
    exact ⟨by show 56320 ≤ _; omega, by show _ ≤ 57343; omega⟩
  · have hcode : 0x10000 + (0xd800 + (c.toNat - 0x10000) / 0x400 - 0xd800) * 0x400 +
        (0xdc00 + (c.toNat - 0x10000) % 0x400 - 0xdc00) = c.toNat := by
      omega
    rw [paired, hhigh, hlow, hcode]
    exact Char.ofNat_toNat c

theorem scalars_ofScalars (chars : List Char) : scalars (ofScalars chars) = chars := by
  unfold ofScalars
  induction chars with
  | nil => rfl
  | cons c chars ih =>
    rw [units_ofList_cons]
    split
    · rename_i hone
      obtain ⟨hhigh, hscalar⟩ := scalar_ofNat c hone
      rw [List.singleton_append, scalars_cons hhigh, hscalar, ih]
    · rename_i htwo
      obtain ⟨hhigh, hlow, hpaired⟩ := paired_ofNat c htwo
      rw [List.cons_append, List.singleton_append, scalars_pair hhigh hlow, hpaired, ih]

theorem ofScalars_append (chars chars' : List Char) : ofScalars (chars ++ chars') = ofScalars chars ++ ofScalars chars' := by
  rw [ofScalars, String.ofList_append, units_append]
  rfl

@[simp] theorem encode_ofScalars (chars : List Char) : TextEncoder.encode (ofScalars chars) = Utf8.bytes chars := by
  rw [TextEncoder.encode, scalars_ofScalars]

/-- What a decoder that drops a byte order mark makes of a text. -/
def unmarked (chars : List Char) : List Char := if chars.head? = some '\uFEFF' then chars.tail else chars

theorem decode_bytes (chars : List Char) : TextDecoder.decode (Utf8.bytes chars) = some (ofScalars (unmarked chars)) := by
  have hmark : String.utf8EncodeChar '\uFEFF' = [0xef, 0xbb, 0xbf] := by
    decide
  unfold TextDecoder.decode unmarked
  by_cases h : chars.head? = some '\uFEFF'
  · obtain ⟨rest, rfl⟩ := List.head?_eq_some_iff.mp h
    have hprefix : [0xef, 0xbb, 0xbf].isPrefixOf (Utf8.bytes ('\uFEFF' :: rest)) = true := by
      rw [Utf8.bytes_cons, hmark, List.isPrefixOf_iff_prefix]
      exact List.prefix_append _ _
    have hdrop : (Utf8.bytes ('\uFEFF' :: rest)).drop 3 = Utf8.bytes rest := by
      rw [Utf8.bytes_cons, hmark]
      rfl
    rw [if_pos hprefix, hdrop, Utf8.decode?_bytes, if_pos h]
    rfl
  · have hprefix : ¬[0xef, 0xbb, 0xbf].isPrefixOf (Utf8.bytes chars) = true := fun hprefix =>
      h (Utf8.head?_of_prefix (hmark ▸ List.isPrefixOf_iff_prefix.mp hprefix))
    rw [if_neg hprefix, Utf8.decode?_bytes, if_neg h]
    rfl

theorem utf8Size_scalar (unit : UInt16) : (scalar unit).utf8Size ≤ 3 := by
  have hlt : (scalar unit).toNat < 0x10000 := by
    unfold scalar
    split
    · decide
    · by_cases hvalid : unit.toNat.isValidChar
      · rw [Char.ofNat, dif_pos hvalid]
        exact unit.toNat_lt
      · rw [Char.ofNat, dif_neg hvalid]
        decide
  unfold Char.utf8Size
  dsimp only
  split
  · exact Nat.le_of_ble_eq_true rfl
  · split
    · exact Nat.le_of_ble_eq_true rfl
    · split
      · exact Nat.le_refl 3
      · rename_i hlarge
        have hle : (scalar unit).val.toNat ≤ 65535 := Nat.le_of_lt_succ hlt
        exact absurd (UInt32.le_iff_toNat_le.mpr hle) hlarge

/-- Each unit takes at most three bytes. -/
theorem size_scalars_le (text : Text) : Utf8.size (scalars text) ≤ 3 * text.length := by
  fun_induction scalars text with
  | case1 => exact Nat.zero_le _
  | case2 unit =>
    rw [Utf8.size_cons]
    exact utf8Size_scalar unit
  | case3 high low rest _ ih =>
    have hpair := Char.utf8Size_le_four (paired high low)
    rw [Utf8.size_cons, List.length_cons, List.length_cons]
    omega
  | case4 high low rest _ ih =>
    have hunit := utf8Size_scalar high
    rw [Utf8.size_cons, List.length_cons]
    omega

end Opensteer
