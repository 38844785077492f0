import Mathlib.Algebra.Order.Ring.Int
import Mathlib.Data.Bool.AllAny
import Opensteer.Core.Json
import Opensteer.Framework.Lookup

/-!
# Base64url

`packages/shared/src/base64url.ts`. The accumulator keeps 32 bits of what was read, of which no more than
fourteen are looked at; a group of four digits leaves none of them (`foldl_group`).
-/

namespace Opensteer.Shared

/-- The characters of a string, by code points; a surrogate that is in no pair is one of them. -/
def characters : Text → List Text
  | [] => []
  | [unit] => [[unit]]
  | unit :: next :: rest =>
    if 0xd800 ≤ unit ∧ unit ≤ 0xdbff ∧ isLowSurrogate next then [unit, next] :: characters rest
    else [unit] :: characters (next :: rest)

def alphabet : Text := units "ABCDEFGHIJKLMNOPQRSTUVWXYZabcdefghijklmnopqrstuvwxyz0123456789-_"

def digits : List (Text × Nat) := (characters alphabet).zipIdx

/-- `digits.get(character)`. -/
def digit (character : Text) : Option Nat := (lookupBy Prod.fst digits character).map Prod.snd

/-- `alphabet[i]`. -/
def letter (i : Nat) : Text := alphabet[i]?.toList

/-- One turn of the loop of `encodeBase64Url`. -/
def encodeGroup (first : UInt8) (second third : Option UInt8) : Text :=
  letter (first.toNat >>> 2) ++
    letter ((first.toNat &&& 0x03) <<< 4 ||| (second.getD 0).toNat >>> 4) ++
    (match second with
      | some second => letter ((second.toNat &&& 0x0f) <<< 2 ||| (third.getD 0).toNat >>> 6)
      | none => []) ++
    (match third with
      | some third => letter (third.toNat &&& 0x3f)
      | none => [])

def encodeBase64Url : List UInt8 → Text
  | [] => []
  | [first] => encodeGroup first none none
  | [first, second] => encodeGroup first (some second) none
  | first :: second :: third :: rest => encodeGroup first (some second) (some third) ++ encodeBase64Url rest

/-- The `TypeError`s of `decodeBase64Url`. -/
inductive Base64Error
  | impossibleLength
  | outsideAlphabet
  | trailingBits
deriving DecidableEq, Repr

def Base64Error.message : Base64Error → String
  | .impossibleLength => "base64url input has an impossible length"
  | .outsideAlphabet => "base64url input is outside the unpadded base64url alphabet"
  | .trailingBits => "base64url input has non-zero trailing bits"

/-- The variables of the loop of `decodeBase64Url`. -/
structure Decoding where
  accumulator : BitVec 32
  bits : Nat
  offset : Nat
  bytes : List UInt8

/-- One turn of it. -/
def decodeDigit (s : Decoding) (digit : Nat) : Decoding :=
  let accumulator := s.accumulator <<< 6 ||| BitVec.ofNat 32 digit
  let bits := s.bits + 6
  if 8 ≤ bits then
    let bits := bits - 8
    ⟨accumulator, bits, s.offset + 1, s.bytes.set s.offset (UInt8.ofNat (accumulator.sshiftRight bits &&& 0xff#32).toNat)⟩
  else ⟨accumulator, bits, s.offset, s.bytes⟩

def decodeCharacters (s : Decoding) : List Text → Except Base64Error Decoding
  | [] => .ok s
  | character :: rest =>
    match digit character with
    | none => .error .outsideAlphabet
    | some digit => decodeCharacters (decodeDigit s digit) rest

def decodeBase64Url (value : Text) : Except Base64Error (List UInt8) :=
  if value.length % 4 = 1 then .error .impossibleLength
  else
    match decodeCharacters ⟨0, 0, 0, List.replicate (value.length * 6 / 8) 0⟩ (characters value) with
    | .error error => .error error
    | .ok s => if s.accumulator &&& (1#32 <<< s.bits - 1) ≠ 0 then .error .trailingBits else .ok s.bytes

def canonicalBase64urlByteLength (value : Text) (minimum maximum : Nat) : Bool :=
  match decodeBase64Url value with
  | .ok bytes => minimum ≤ bytes.length ∧ bytes.length ≤ maximum
  | .error _ => false

def canonicalBase64urlBytes (value : Text) (length : Nat) : Bool := canonicalBase64urlByteLength value length length

/-! ## Characters and digits -/

theorem flatten_characters (text : Text) : (characters text).flatten = text := by
  fun_induction characters text with
  | case1 => rfl
  | case2 unit => rfl
  | case3 unit next rest _ ih =>
    rw [List.flatten_cons, ih]
    rfl
  | case4 unit next rest _ ih =>
    rw [List.flatten_cons, ih]
    rfl

theorem characters_of_no_surrogate {text : Text} (h : ∀ unit ∈ text, unit < 0xd800) :
    characters text = text.map ([·]) := by
  fun_induction characters text with
  | case1 => rfl
  | case2 unit => rfl
  | case3 unit next rest hpair _ =>
    exact absurd (h unit List.mem_cons_self) (UInt16.not_lt.mpr hpair.1)
  | case4 unit next rest _ ih =>
    rw [ih fun u hu => h u (List.mem_cons_of_mem _ hu)]
    rfl

theorem alphabet_eq : alphabet =
    (List.range' 0x41 26 ++ List.range' 0x61 26 ++ List.range' 0x30 10 ++ [0x2d, 0x5f]).map UInt16.ofNat := by
  decide +kernel

theorem length_alphabet : alphabet.length = 64 := by
  rw [alphabet_eq]
  rfl

theorem nodup_alphabet : alphabet.Nodup := by
  rw [alphabet_eq]
  decide +kernel

theorem lt_of_mem_alphabet : ∀ unit ∈ alphabet, unit < 0xd800 := by
  rw [alphabet_eq]
  exact List.all_iff_forall_prop.mp (by decide +kernel)

theorem characters_alphabet : characters alphabet = alphabet.map ([·]) :=
  characters_of_no_surrogate lt_of_mem_alphabet

theorem digit_eq_some {character : Text} {d : Nat} : digit character = some d ↔ d < 64 ∧ character = letter d := by
  have hkeys : (digits.map Prod.fst).Nodup := by
    rw [digits, List.zipIdx_map_fst, characters_alphabet]
    exact nodup_alphabet.map fun _ _ h => (List.cons.inj h).1
  have hmem : (character, d) ∈ digits ↔ d < 64 ∧ character = letter d := by
    rw [digits, List.mk_mem_zipIdx_iff_getElem?, characters_alphabet, List.getElem?_map, letter]
    by_cases hd : d < 64
    · rw [List.getElem?_eq_getElem (length_alphabet ▸ hd)]
      exact ⟨fun h => ⟨hd, (Option.some.inj h).symm⟩, fun h => congrArg some h.2.symm⟩
    · rw [List.getElem?_eq_none (by rw [length_alphabet]; omega)]
      exact iff_of_false (fun h => (nomatch h)) fun h => hd h.1
  rw [← hmem, digit, Option.map_eq_some_iff]
  constructor
  · rintro ⟨entry, hentry, rfl⟩
    obtain ⟨h, rfl⟩ := (lookupBy_eq_some hkeys).mp hentry
    exact h
  · exact fun h => ⟨(character, d), (lookupBy_eq_some hkeys).mpr ⟨h, rfl⟩, rfl⟩

/-- The text of digits. -/
def letters (ds : List Nat) : Text := ds.flatMap letter

theorem letter_of_lt {d : Nat} (h : d < 64) : ∃ unit, unit < 0xd800 ∧ letter d = [unit] := by
  have hd : d < alphabet.length := length_alphabet ▸ h
  refine ⟨alphabet[d], lt_of_mem_alphabet _ (List.getElem_mem _), ?_⟩
  rw [letter, List.getElem?_eq_getElem hd]
  rfl

theorem length_letters {ds : List Nat} (h : ∀ d ∈ ds, d < 64) : (letters ds).length = ds.length := by
  induction ds with
  | nil => rfl
  | cons d ds ih =>
    obtain ⟨unit, -, hunit⟩ := letter_of_lt (h d List.mem_cons_self)
    rw [letters, List.flatMap_cons, List.length_append, hunit]
    have := ih fun d hd => h d (List.mem_cons_of_mem _ hd)
    rw [letters] at this
    rw [this, List.length_cons, List.length_cons, List.length_nil, Nat.add_comm]

theorem characters_letters {ds : List Nat} (h : ∀ d ∈ ds, d < 64) : characters (letters ds) = ds.map letter := by
  have hunits : ∀ unit ∈ letters ds, unit < 0xd800 := by
    intro unit hmem
    obtain ⟨d, hd, hunit⟩ := List.mem_flatMap.mp hmem
    obtain ⟨unit', hlt, heq⟩ := letter_of_lt (h d hd)
    rw [heq] at hunit
    exact List.mem_singleton.mp hunit ▸ hlt
  rw [characters_of_no_surrogate hunits]
  clear hunits
  induction ds with
  | nil => rfl
  | cons d ds ih =>
    obtain ⟨unit, -, hunit⟩ := letter_of_lt (h d List.mem_cons_self)
    have := ih fun d hd => h d (List.mem_cons_of_mem _ hd)
    rw [letters] at this
    rw [letters, List.flatMap_cons, List.map_append, this, List.map_cons, hunit]
    rfl

theorem decodeCharacters_cons (s : Decoding) (text : Text) (texts : List Text) :
    decodeCharacters s (text :: texts) =
      match digit text with
      | none => .error .outsideAlphabet
      | some d => decodeCharacters (decodeDigit s d) texts := rfl

/-- The loop goes over texts of digits, to the state after the digits. -/
theorem decodeCharacters_eq_ok {s s' : Decoding} {texts : List Text} : decodeCharacters s texts = .ok s' ↔
    ∃ ds : List Nat, (∀ d ∈ ds, d < 64) ∧ texts = ds.map letter ∧ ds.foldl decodeDigit s = s' := by
  induction texts generalizing s with
  | nil =>
    constructor
    · exact fun h => ⟨[], fun _ h => absurd h List.not_mem_nil, rfl, Except.ok.inj h⟩
    · rintro ⟨ds, -, hds, rfl⟩
      rw [List.map_eq_nil_iff.mp hds.symm]
      rfl
  | cons text texts ih =>
    cases hdigit : digit text with
    | none =>
      have hcode : decodeCharacters s (text :: texts) = .error .outsideAlphabet := by
        rw [decodeCharacters_cons, hdigit]
      rw [hcode]
      refine iff_of_false (fun h => by cases h) ?_
      rintro ⟨ds, hlt, hds, -⟩
      obtain ⟨d, ds, rfl, htext, -⟩ := List.map_eq_cons_iff.mp hds.symm
      cases hdigit.symm.trans (digit_eq_some.mpr ⟨hlt d List.mem_cons_self, htext.symm⟩)
    | some d =>
      have hcode : decodeCharacters s (text :: texts) = decodeCharacters (decodeDigit s d) texts := by
        rw [decodeCharacters_cons, hdigit]
      obtain ⟨hd, htext⟩ := digit_eq_some.mp hdigit
      rw [hcode, ih]
      constructor
      · rintro ⟨ds, hlt, rfl, rfl⟩
        exact ⟨d :: ds, List.forall_mem_cons.mpr ⟨hd, hlt⟩, htext ▸ rfl, rfl⟩
      · rintro ⟨ds, hlt, hds, rfl⟩
        obtain ⟨d', ds, rfl, htext', rfl⟩ := List.map_eq_cons_iff.mp hds.symm
        have hlt' := List.forall_mem_cons.mp hlt
        obtain rfl := Option.some.inj (hdigit.symm.trans (digit_eq_some.mpr ⟨hlt'.1, htext'.symm⟩))
        exact ⟨ds, hlt'.2, rfl, rfl⟩

/-! ## Digits and bytes -/

/-- The digits of bytes, and the bytes of digits of which the bits over are zero. -/
def encodedDigits : List UInt8 → List Nat
  | [] => []
  | [x] => [x.toNat / 4, x.toNat % 4 * 16]
  | [x, y] => [x.toNat / 4, x.toNat % 4 * 16 + y.toNat / 16, y.toNat % 16 * 4]
  | x :: y :: z :: rest =>
    x.toNat / 4 :: (x.toNat % 4 * 16 + y.toNat / 16) :: (y.toNat % 16 * 4 + z.toNat / 64) :: z.toNat % 64 :: encodedDigits rest

def decoded : List Nat → Option (List UInt8)
  | [] => some []
  | [_] => none
  | [d₁, d₂] => if d₂ % 16 = 0 then some [UInt8.ofNat (d₁ * 4 + d₂ / 16)] else none
  | [d₁, d₂, d₃] =>
    if d₃ % 4 = 0 then some [UInt8.ofNat (d₁ * 4 + d₂ / 16), UInt8.ofNat (d₂ % 16 * 16 + d₃ / 4)] else none
  | d₁ :: d₂ :: d₃ :: d₄ :: rest =>
    (decoded rest).map ([UInt8.ofNat (d₁ * 4 + d₂ / 16), UInt8.ofNat (d₂ % 16 * 16 + d₃ / 4), UInt8.ofNat (d₃ % 4 * 64 + d₄)] ++ ·)

theorem shiftLeft_or {a b i : Nat} (h : b < 2 ^ i) : a <<< i ||| b = a * 2 ^ i + b := by
  rw [← Nat.shiftLeft_add_eq_or_of_lt h, Nat.shiftLeft_eq]

theorem encodedDigits_lt (bytes : List UInt8) : ∀ d ∈ encodedDigits bytes, d < 64 := by
  fun_induction encodedDigits bytes with
  | case1 => exact fun _ h => absurd h List.not_mem_nil
  | case2 x =>
    have := x.toNat_lt
    simp only [List.forall_mem_cons]
    exact ⟨by omega, by omega, fun _ h => absurd h List.not_mem_nil⟩
  | case3 x y =>
    have := x.toNat_lt
    have := y.toNat_lt
    simp only [List.forall_mem_cons]
    exact ⟨by omega, by omega, by omega, fun _ h => absurd h List.not_mem_nil⟩
  | case4 x y z rest ih =>
    have := x.toNat_lt
    have := y.toNat_lt
    have := z.toNat_lt
    simp only [List.forall_mem_cons]
    exact ⟨by omega, by omega, by omega, by omega, ih⟩

/-- A group is written in its digits. -/
theorem encodeBase64Url_eq (bytes : List UInt8) : encodeBase64Url bytes = letters (encodedDigits bytes) := by
  have hfirst (x : UInt8) : x.toNat >>> 2 = x.toNat / 4 := Nat.shiftRight_eq_div_pow _ 2
  have hsecond (x y : UInt8) : (x.toNat &&& 0x03) <<< 4 ||| y.toNat >>> 4 = x.toNat % 4 * 16 + y.toNat / 16 := by
    have := y.toNat_lt
    rw [Nat.shiftRight_eq_div_pow, shiftLeft_or (by omega)]
    exact congrArg (· * 16 + _) (Nat.and_two_pow_sub_one_eq_mod _ 2)
  have hthird (y z : UInt8) : (y.toNat &&& 0x0f) <<< 2 ||| z.toNat >>> 6 = y.toNat % 16 * 4 + z.toNat / 64 := by
    have := z.toNat_lt
    rw [Nat.shiftRight_eq_div_pow, shiftLeft_or (by omega)]
    exact congrArg (· * 4 + _) (Nat.and_two_pow_sub_one_eq_mod _ 4)
  have hfourth (z : UInt8) : z.toNat &&& 0x3f = z.toNat % 64 := Nat.and_two_pow_sub_one_eq_mod _ 6
  fun_induction encodedDigits bytes with
  | case1 => rfl
  | case2 x =>
    rw [encodeBase64Url, encodeGroup, hfirst, Option.getD_none, hsecond]
    simp [letters]
  | case3 x y =>
    rw [encodeBase64Url, encodeGroup, hfirst, Option.getD_some, hsecond, Option.getD_none, hthird]
    simp [letters]
  | case4 x y z rest ih =>
    rw [encodeBase64Url, encodeGroup, hfirst, Option.getD_some, hsecond, Option.getD_some, hthird, hfourth, ih]
    simp [letters]

/-- Digits are decoded to the bytes that are encoded in them. -/
theorem decoded_eq_some {ds : List Nat} (h : ∀ d ∈ ds, d < 64) {bytes : List UInt8} :
    decoded ds = some bytes ↔ ds = encodedDigits bytes := by
  constructor
  · intro hdecoded
    fun_induction decoded ds generalizing bytes with
    | case1 =>
      obtain rfl := Option.some.inj hdecoded
      rfl
    | case2 => cases hdecoded
    | case3 d₁ d₂ hzero =>
      obtain rfl := Option.some.inj hdecoded
      have := h d₁ (by simp)
      have := h d₂ (by simp)
      rw [encodedDigits, UInt8.toNat_ofNat_of_lt' (show _ < 256 by omega)]
      congr 2 <;> omega
    | case4 => cases hdecoded
    | case5 d₁ d₂ d₃ hzero =>
      obtain rfl := Option.some.inj hdecoded
      have := h d₁ (by simp)
      have := h d₂ (by simp)
      have := h d₃ (by simp)
      rw [encodedDigits, UInt8.toNat_ofNat_of_lt' (show _ < 256 by omega), UInt8.toNat_ofNat_of_lt' (show _ < 256 by omega)]
      congr 3 <;> omega
    | case6 => cases hdecoded
    | case7 d₁ d₂ d₃ d₄ rest ih =>
      obtain ⟨bytes, hrest, rfl⟩ := Option.map_eq_some_iff.mp hdecoded
      have := h d₁ (by simp)
      have := h d₂ (by simp)
      have := h d₃ (by simp)
      have := h d₄ (by simp)
      rw [List.cons_append, List.cons_append, List.cons_append, List.nil_append, encodedDigits,
        UInt8.toNat_ofNat_of_lt' (show _ < 256 by omega), UInt8.toNat_ofNat_of_lt' (show _ < 256 by omega),
        UInt8.toNat_ofNat_of_lt' (show _ < 256 by omega), ← ih (fun d hd => h d (by simp [hd])) hrest]
      congr 4 <;> omega
  · rintro rfl
    clear h
    fun_induction encodedDigits bytes with
    | case1 => rfl
    | case2 x =>
      rw [decoded, if_pos (by omega), show x.toNat / 4 * 4 + x.toNat % 4 * 16 / 16 = x.toNat by omega, UInt8.ofNat_toNat]
    | case3 x y =>
      have := y.toNat_lt
      rw [decoded, if_pos (by omega), show x.toNat / 4 * 4 + (x.toNat % 4 * 16 + y.toNat / 16) / 16 = x.toNat by omega,
        show (x.toNat % 4 * 16 + y.toNat / 16) % 16 * 16 + y.toNat % 16 * 4 / 4 = y.toNat by omega, UInt8.ofNat_toNat,
        UInt8.ofNat_toNat]
    | case4 x y z rest ih =>
      have := y.toNat_lt
      have := z.toNat_lt
      rw [decoded, ih, show x.toNat / 4 * 4 + (x.toNat % 4 * 16 + y.toNat / 16) / 16 = x.toNat by omega,
        show (x.toNat % 4 * 16 + y.toNat / 16) % 16 * 16 + (y.toNat % 16 * 4 + z.toNat / 64) / 4 = y.toNat by omega,
        show (y.toNat % 16 * 4 + z.toNat / 64) % 4 * 64 + z.toNat % 64 = z.toNat by omega, UInt8.ofNat_toNat,
        UInt8.ofNat_toNat, UInt8.ofNat_toNat]
      rfl

/-! ## The accumulator -/

/-- What the accumulator is after a digit. -/
theorem toNat_push (accumulator : BitVec 32) {d : Nat} (h : d < 64) :
    (accumulator <<< 6 ||| BitVec.ofNat 32 d).toNat = (accumulator.toNat * 64 + d) % 2 ^ 32 := by
  have hshift : accumulator.toNat <<< 6 % 2 ^ 32 = (accumulator.toNat % 2 ^ 26) <<< 6 := by
    rw [Nat.shiftLeft_eq, Nat.shiftLeft_eq]
    omega
  rw [BitVec.toNat_or, BitVec.toNat_shiftLeft, BitVec.toNat_ofNat, Nat.mod_eq_of_lt (show d < 2 ^ 32 by omega), hshift,
    shiftLeft_or (by omega)]
  omega

/-- The sign that is shifted in is not among the eight bits that are looked at. -/
theorem toNat_shift_and (accumulator : BitVec 32) {bits : Nat} (h : bits ≤ 24) :
    (accumulator.sshiftRight bits &&& 0xff#32).toNat = accumulator.toNat / 2 ^ bits % 2 ^ 8 := by
  apply Nat.eq_of_testBit_eq
  intro i
  have hmask : (0xff#32).toNat = 2 ^ 8 - 1 := rfl
  rw [BitVec.toNat_and, hmask, Nat.and_two_pow_sub_one_eq_mod, Nat.testBit_mod_two_pow, Nat.testBit_mod_two_pow,
    Nat.testBit_div_two_pow]
  by_cases hi : i < 8
  · have hlt : bits + i < 32 := by omega
    rw [BitVec.testBit_toNat, BitVec.getLsbD_sshiftRight, BitVec.testBit_toNat, if_pos hlt, Nat.add_comm,
      decide_eq_false (show ¬ 32 ≤ i by omega)]
    rfl
  · rw [decide_eq_false hi, Bool.false_and, Bool.false_and]

theorem and_mask_eq_zero (accumulator : BitVec 32) {mask : BitVec 32} {bits : Nat} (h : mask.toNat = 2 ^ bits - 1) :
    accumulator &&& mask = 0 ↔ accumulator.toNat % 2 ^ bits = 0 := by
  rw [← BitVec.toNat_inj, BitVec.toNat_and, h, Nat.and_two_pow_sub_one_eq_mod]
  rfl

theorem set_fill (done : List UInt8) (n : Nat) (byte : UInt8) :
    (done ++ List.replicate (n + 1) 0).set done.length byte = (done ++ [byte]) ++ List.replicate n 0 := by
  rw [List.set_append_right _ _ (Nat.le_refl _), Nat.sub_self, List.replicate_succ, List.set_cons_zero, List.append_assoc]
  rfl

/-! ## The loop of the decoder -/

section Loop

variable (accumulator : BitVec 32) (done : List UInt8) (n : Nat) {d d₁ d₂ d₃ d₄ : Nat}

/-- A digit that completes a byte writes it behind those written. -/
theorem decodeDigit_write (hd : d < 64) {bits : Nat} (h : 2 ≤ bits) (hle : bits ≤ 6) :
    decodeDigit ⟨accumulator, bits, done.length, done ++ List.replicate (n + 1) 0⟩ d =
      ⟨accumulator <<< 6 ||| BitVec.ofNat 32 d, bits - 2, (done ++ [UInt8.ofNat 0]).length,
        (done ++ [UInt8.ofNat ((accumulator.toNat * 64 + d) % 2 ^ 32 / 2 ^ (bits - 2) % 2 ^ 8)]) ++ List.replicate n 0⟩ := by
  have hbits : bits + 6 - 8 = bits - 2 := by omega
  rw [decodeDigit]
  dsimp only
  rw [if_pos (by omega), hbits, toNat_shift_and _ (by omega), toNat_push _ hd, set_fill, List.length_append, List.length_singleton]

/-- Two digits write a byte, and leave the bits of the second that are over. -/
theorem foldl_two (h₁ : d₁ < 64) (h₂ : d₂ < 64) :
    ∃ accumulator' : BitVec 32, accumulator'.toNat % 2 ^ 12 = d₁ * 64 + d₂ ∧
      [d₁, d₂].foldl decodeDigit ⟨accumulator, 0, done.length, done ++ List.replicate (n + 1) 0⟩ =
        ⟨accumulator', 4, (done ++ [UInt8.ofNat 0]).length, (done ++ [UInt8.ofNat (d₁ * 4 + d₂ / 16)]) ++ List.replicate n 0⟩ := by
  have hfirst : decodeDigit ⟨accumulator, 0, done.length, done ++ List.replicate (n + 1) 0⟩ d₁ =
      ⟨accumulator <<< 6 ||| BitVec.ofNat 32 d₁, 6, done.length, done ++ List.replicate (n + 1) 0⟩ := rfl
  have hbyte : ((accumulator <<< 6 ||| BitVec.ofNat 32 d₁).toNat * 64 + d₂) % 2 ^ 32 / 2 ^ (6 - 2) % 2 ^ 8 = d₁ * 4 + d₂ / 16 := by
    rw [toNat_push accumulator h₁]
    omega
  refine ⟨(accumulator <<< 6 ||| BitVec.ofNat 32 d₁) <<< 6 ||| BitVec.ofNat 32 d₂, ?_, ?_⟩
  · rw [toNat_push _ h₂, toNat_push _ h₁]
    omega
  · rw [List.foldl_cons, List.foldl_cons, List.foldl_nil, hfirst, decodeDigit_write _ _ _ h₂ (by decide) (by decide), hbyte]

/-- A third writes another. -/
theorem foldl_three (h₁ : d₁ < 64) (h₂ : d₂ < 64) (h₃ : d₃ < 64) :
    ∃ accumulator' : BitVec 32, accumulator'.toNat % 2 ^ 18 = (d₁ * 64 + d₂) * 64 + d₃ ∧
      [d₁, d₂, d₃].foldl decodeDigit ⟨accumulator, 0, done.length, done ++ List.replicate (n + 2) 0⟩ =
        ⟨accumulator', 2, (done ++ [UInt8.ofNat 0, UInt8.ofNat 0]).length,
          (done ++ [UInt8.ofNat (d₁ * 4 + d₂ / 16), UInt8.ofNat (d₂ % 16 * 16 + d₃ / 4)]) ++ List.replicate n 0⟩ := by
  obtain ⟨accumulator', htwo, hfold⟩ := foldl_two accumulator done (n + 1) h₁ h₂
  have hbyte : (accumulator'.toNat * 64 + d₃) % 2 ^ 32 / 2 ^ (4 - 2) % 2 ^ 8 = d₂ % 16 * 16 + d₃ / 4 := by omega
  have hwrite := decodeDigit_write accumulator' (done ++ [UInt8.ofNat (d₁ * 4 + d₂ / 16)]) n h₃ (show 2 ≤ 4 by decide) (by decide)
  rw [hbyte] at hwrite
  simp only [List.append_assoc, List.length_append, List.length_singleton, List.singleton_append] at hfold hwrite ⊢
  refine ⟨accumulator' <<< 6 ||| BitVec.ofNat 32 d₃, ?_, ?_⟩
  · rw [toNat_push _ h₃]
    omega
  · rw [show [d₁, d₂, d₃] = [d₁, d₂] ++ [d₃] from rfl, List.foldl_append, hfold, List.foldl_cons, List.foldl_nil, hwrite]
    rfl

/-- Four leave nothing over. -/
theorem foldl_group (h₁ : d₁ < 64) (h₂ : d₂ < 64) (h₃ : d₃ < 64) (h₄ : d₄ < 64) :
    ∃ accumulator' : BitVec 32,
      [d₁, d₂, d₃, d₄].foldl decodeDigit ⟨accumulator, 0, done.length, done ++ List.replicate (n + 3) 0⟩ =
        ⟨accumulator', 0, (done ++ [UInt8.ofNat 0, UInt8.ofNat 0, UInt8.ofNat 0]).length,
          (done ++ [UInt8.ofNat (d₁ * 4 + d₂ / 16), UInt8.ofNat (d₂ % 16 * 16 + d₃ / 4), UInt8.ofNat (d₃ % 4 * 64 + d₄)]) ++
            List.replicate n 0⟩ := by
  obtain ⟨accumulator', hthree, hfold⟩ := foldl_three accumulator done (n + 1) h₁ h₂ h₃
  have hbyte : (accumulator'.toNat * 64 + d₄) % 2 ^ 32 / 2 ^ (2 - 2) % 2 ^ 8 = d₃ % 4 * 64 + d₄ := by omega
  have hwrite := decodeDigit_write accumulator' (done ++ [UInt8.ofNat (d₁ * 4 + d₂ / 16), UInt8.ofNat (d₂ % 16 * 16 + d₃ / 4)]) n
    h₄ (show 2 ≤ 2 by decide) (by decide)
  rw [hbyte] at hwrite
  simp only [List.append_assoc, List.length_append, List.length_cons, List.length_nil, List.cons_append, List.nil_append] at hfold hwrite ⊢
  refine ⟨accumulator' <<< 6 ||| BitVec.ofNat 32 d₄, ?_⟩
  rw [show [d₁, d₂, d₃, d₄] = [d₁, d₂, d₃] ++ [d₄] from rfl, List.foldl_append, hfold, List.foldl_cons, List.foldl_nil, hwrite]

end Loop

/-- The bytes written, if nothing is over at the end. -/
def finish (s : Decoding) : Option (List UInt8) := if s.accumulator &&& (1#32 <<< s.bits - 1) ≠ 0 then none else some s.bytes

theorem finish_foldl {ds : List Nat} (h : ∀ d ∈ ds, d < 64) (hlength : ds.length % 4 ≠ 1) (accumulator : BitVec 32)
    (done : List UInt8) : finish (ds.foldl decodeDigit ⟨accumulator, 0, done.length, done ++ List.replicate (ds.length * 6 / 8) 0⟩) =
      (decoded ds).map (done ++ ·) := by
  fun_induction decoded ds generalizing accumulator done with
  | case1 =>
    rw [List.foldl_nil, finish, if_neg (by simp)]
    rfl
  | case2 => exact absurd rfl hlength
  | case3 d₁ d₂ hzero =>
    obtain ⟨accumulator', hacc, hfold⟩ := foldl_two accumulator done 0 (h d₁ (by simp)) (h d₂ (by simp))
    rw [show [d₁, d₂].length * 6 / 8 = 0 + 1 by simp, hfold, finish, if_neg]
    · simp
    · rw [not_not, and_mask_eq_zero accumulator' (show (1#32 <<< 4 - 1).toNat = 2 ^ 4 - 1 from rfl)]
      omega
  | case4 d₁ d₂ hzero =>
    obtain ⟨accumulator', hacc, hfold⟩ := foldl_two accumulator done 0 (h d₁ (by simp)) (h d₂ (by simp))
    rw [show [d₁, d₂].length * 6 / 8 = 0 + 1 by simp, hfold, finish, if_pos]
    · rfl
    · rw [Ne, and_mask_eq_zero accumulator' (show (1#32 <<< 4 - 1).toNat = 2 ^ 4 - 1 from rfl)]
      omega
  | case5 d₁ d₂ d₃ hzero =>
    obtain ⟨accumulator', hacc, hfold⟩ := foldl_three accumulator done 0 (h d₁ (by simp)) (h d₂ (by simp)) (h d₃ (by simp))
    rw [show [d₁, d₂, d₃].length * 6 / 8 = 0 + 2 by simp, hfold, finish, if_neg]
    · simp
    · rw [not_not, and_mask_eq_zero accumulator' (show (1#32 <<< 2 - 1).toNat = 2 ^ 2 - 1 from rfl)]
      omega
  | case6 d₁ d₂ d₃ hzero =>
    obtain ⟨accumulator', hacc, hfold⟩ := foldl_three accumulator done 0 (h d₁ (by simp)) (h d₂ (by simp)) (h d₃ (by simp))
    rw [show [d₁, d₂, d₃].length * 6 / 8 = 0 + 2 by simp, hfold, finish, if_pos]
    · rfl
    · rw [Ne, and_mask_eq_zero accumulator' (show (1#32 <<< 2 - 1).toNat = 2 ^ 2 - 1 from rfl)]
      omega
  | case7 d₁ d₂ d₃ d₄ rest ih =>
    have hcount : (d₁ :: d₂ :: d₃ :: d₄ :: rest).length * 6 / 8 = rest.length * 6 / 8 + 3 := by
      simp only [List.length_cons]
      omega
    have hrest : rest.length % 4 ≠ 1 := by
      simp only [List.length_cons] at hlength
      omega
    obtain ⟨accumulator', hfold⟩ := foldl_group accumulator done (rest.length * 6 / 8) (h d₁ (by simp)) (h d₂ (by simp))
      (h d₃ (by simp)) (h d₄ (by simp))
    rw [hcount, show d₁ :: d₂ :: d₃ :: d₄ :: rest = [d₁, d₂, d₃, d₄] ++ rest from rfl, List.foldl_append, hfold]
    have := ih (fun d hd => h d (by simp [hd])) hrest accumulator'
      (done ++ [UInt8.ofNat (d₁ * 4 + d₂ / 16), UInt8.ofNat (d₂ % 16 * 16 + d₃ / 4), UInt8.ofNat (d₃ % 4 * 64 + d₄)])
    simp only [List.length_append, List.length_cons, List.length_nil] at this ⊢
    rw [this, Option.map_map]
    congr 1
    funext bytes
    exact List.append_assoc _ _ _

/-! ## What is accepted -/

theorem encodedDigits_length (bytes : List UInt8) : (encodedDigits bytes).length % 4 ≠ 1 := by
  fun_induction encodedDigits bytes with
  | case1 => decide
  | case2 => simp
  | case3 => simp
  | case4 _ _ _ rest ih =>
    simp only [List.length_cons]
    omega

/-- What is decoded is the encoding of what it is decoded to. -/
theorem decodeBase64Url_eq_ok {value : Text} {bytes : List UInt8} :
    decodeBase64Url value = .ok bytes ↔ value = encodeBase64Url bytes := by
  rw [encodeBase64Url_eq]
  constructor
  · intro h
    unfold decodeBase64Url at h
    split at h
    · cases h
    · rename_i hlength
      split at h
      · cases h
      · rename_i s hs
        obtain ⟨ds, hlt, hds, rfl⟩ := decodeCharacters_eq_ok.mp hs
        have hvalue : value = letters ds := by
          rw [← flatten_characters value, hds, letters, List.flatMap_def]
        rw [hvalue, length_letters hlt] at hlength h
        have hfinish := finish_foldl hlt hlength 0 []
        rw [List.nil_append, List.length_nil] at hfinish
        split at h
        · cases h
        · rename_i hzero
          obtain rfl := Except.ok.inj h
          rw [finish, if_neg hzero] at hfinish
          obtain ⟨bytes, hdecoded, hbytes⟩ := Option.map_eq_some_iff.mp hfinish.symm
          rw [← hbytes, hvalue, (decoded_eq_some hlt).mp hdecoded]
          rfl
  · rintro rfl
    have hlt := encodedDigits_lt bytes
    have hfinish := finish_foldl hlt (encodedDigits_length bytes) 0 []
    rw [(decoded_eq_some hlt).mpr rfl, List.nil_append, List.length_nil, finish] at hfinish
    have hs (s : Decoding) : decodeCharacters s (characters (letters (encodedDigits bytes))) =
        .ok ((encodedDigits bytes).foldl decodeDigit s) :=
      decodeCharacters_eq_ok.mpr ⟨encodedDigits bytes, hlt, characters_letters hlt, rfl⟩
    unfold decodeBase64Url
    rw [length_letters hlt, if_neg (encodedDigits_length bytes), hs]
    dsimp only
    split at hfinish
    · cases hfinish
    · rename_i hzero
      rw [if_neg hzero]
      exact congrArg _ (Option.some.inj hfinish)

/-- A text is accepted exactly when it is an encoding, and what it is decoded to is what it encodes. -/
theorem canonicalSpelling : (∀ bytes, decodeBase64Url (encodeBase64Url bytes) = .ok bytes) ∧
    (∀ value, (∃ bytes, decodeBase64Url value = .ok bytes) ↔ ∃ bytes, value = encodeBase64Url bytes) ∧
    (∀ value bytes, decodeBase64Url value = .ok bytes → value = encodeBase64Url bytes) :=
  ⟨fun _ => decodeBase64Url_eq_ok.mpr rfl, fun _ => exists_congr fun _ => decodeBase64Url_eq_ok,
    fun _ _ => decodeBase64Url_eq_ok.mp⟩

theorem canonicalBase64urlByteLength_iff {value : Text} {minimum maximum : Nat} :
    canonicalBase64urlByteLength value minimum maximum ↔
      ∃ bytes, value = encodeBase64Url bytes ∧ minimum ≤ bytes.length ∧ bytes.length ≤ maximum := by
  unfold canonicalBase64urlByteLength
  constructor
  · intro h
    split at h
    · rename_i bytes hvalue
      exact ⟨bytes, decodeBase64Url_eq_ok.mp hvalue, of_decide_eq_true h⟩
    · cases h
  · rintro ⟨bytes, hvalue, hlength⟩
    rw [decodeBase64Url_eq_ok.mpr hvalue]
    exact decide_eq_true hlength

end Opensteer.Shared
