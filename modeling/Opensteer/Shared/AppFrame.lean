import Mathlib.Data.Bool.AllAny
import Opensteer.Core.Json
import Opensteer.Framework.Regroup

/-!
# App origins

`appOriginKey` and `appIdFromHostname` of `packages/shared/src/appFrame.ts`: an app's DNS label is
base32 of its UUID. The buffers of both loops hold fewer than 13 bits, so as numbers they are those
of a `Regroup.Carry`, and the two loops regroup the same digits, there and back
(`IsAppId.key`).
-/

namespace Opensteer.AppFrame

def appKeyAlphabet : Text := units "abcdefghijklmnopqrstuvwxyz234567"

def dash : UInt16 := 45
def dot : UInt16 := 46

/-! ## The language's own -/

/-- The value of a hexadecimal digit. -/
def hexValue (u : UInt16) : Option Nat :=
  if 48 ≤ u ∧ u ≤ 57 then some (u.toNat - 48)
  else if 97 ≤ u ∧ u ≤ 102 then some (u.toNat - 87)
  else if 65 ≤ u ∧ u ≤ 70 then some (u.toNat - 55)
  else none

/-- White space and line terminators. -/
def isStrWhiteSpace (u : UInt16) : Bool :=
  (9 ≤ u && u ≤ 13) || u == 32 || u == 0xa0 || u == 0x1680 || (0x2000 ≤ u && u ≤ 0x200a) ||
    u == 0x2028 || u == 0x2029 || u == 0x202f || u == 0x205f || u == 0x3000 || u == 0xfeff

/-- `Number.parseInt(text, 16)`; `none` is `NaN`. -/
def parseInt16 (text : Text) : Option Int :=
  let text := text.dropWhile isStrWhiteSpace
  let sign : Int := if text.head? = some 45 then -1 else 1
  let text := if text.head? = some 43 ∨ text.head? = some 45 then text.tail else text
  let text := if text.take 2 = units "0x" ∨ text.take 2 = units "0X" then text.drop 2 else text
  match (text.map hexValue).takeWhile Option.isSome with
  | [] => none
  | digits => some (sign * (digits.foldl (fun n d => n * 16 + d.getD 0) 0 : Nat))

/-- `toString(16)` of a natural number. -/
def toString16 (n : Nat) : Text := units (String.ofList (Nat.toDigits 16 n))

/-- `text.slice(start, stop)`, where the indices are no less than zero and in order. -/
def slice (text : Text) (start stop : Nat) : Text := (text.drop start).take (stop - start)

/-! ## `appOriginKey` -/

/-- The variables of the loop of `appOriginKey`. -/
structure Keying where
  key : Text := []
  buffer : BitVec 32 := 0
  bits : Nat := 0

def keyLetter (index : BitVec 32) : Text := appKeyAlphabet[index.toNat]?.toList

/-- The inner loop. -/
def Keying.letters (s : Keying) : Keying :=
  if 5 ≤ s.bits then
    let bits := s.bits - 5
    Keying.letters ⟨s.key ++ keyLetter (s.buffer >>> bits &&& 31), s.buffer, bits⟩
  else s
termination_by s.bits

/-- One turn of the loop; a byte that is `NaN` is 0 to `|`. -/
def Keying.byte (s : Keying) (pair : Text) : Keying :=
  let s : Keying :=
    ⟨s.key, s.buffer <<< 8 ||| BitVec.ofInt 32 ((parseInt16 pair).getD 0), s.bits + 8⟩
  let s := s.letters
  { s with buffer := s.buffer &&& ((1#32 <<< s.bits) - 1#32) }

/-- The loop over the pairs of digits; the last of an odd number stands alone. -/
def Keying.bytes (s : Keying) : Text → Keying
  | [] => s
  | [u] => s.byte [u]
  | u :: v :: rest => (s.byte [u, v]).bytes rest

def appOriginKey (appId : Text) : Text :=
  let hex := (appId.drop (units "app_").length).filter fun u => u ≠ dash
  let s := Keying.bytes {} hex
  if s.bits ≠ 0 then s.key ++ keyLetter (s.buffer <<< (5 - s.bits) &&& 31) else s.key

/-! ## `appIdFromHostname` -/

/-- `[a-z2-7]`. -/
def isKeyLetter (u : UInt16) : Bool := (97 ≤ u && u ≤ 122) || (50 ≤ u && u ≤ 55)

/-- `[0-9a-f]`. -/
def isHexDigit (u : UInt16) : Bool := (48 ≤ u && u ≤ 57) || (97 ≤ u && u ≤ 102)

/-- What follows the key: a dot, or a dash, 32 digits and a dot. -/
def followsKey (rest : Text) : Bool :=
  rest.head? == some dot ||
    (rest.head? == some dash && ((rest.drop 1).take 32).all isHexDigit && rest[33]? == some dot)

/-- The first group of `/^([a-z2-7]{26})(?:-[0-9a-f]{32})?\\./u`. -/
def hostnameKey (hostname : Text) : Option Text :=
  let key := hostname.take 26
  if key.length = 26 ∧ key.all isKeyLetter ∧ followsKey (hostname.drop 26) then some key else none

/-- The variables of the loop of `appIdFromHostname`. -/
structure Unkeying where
  hex : Text := []
  buffer : BitVec 32 := 0
  bits : Nat := 0

/-- `appKeyAlphabet.indexOf(character)`. -/
def keyIndex (character : UInt16) : Int :=
  match appKeyAlphabet.idxOf? character with
  | some index => index
  | none => -1

/-- One turn of it. -/
def Unkeying.character (s : Unkeying) (character : UInt16) : Unkeying :=
  let buffer := s.buffer <<< 5 ||| BitVec.ofInt 32 (keyIndex character)
  let bits := s.bits + 5
  if 8 ≤ bits then
    let bits := bits - 8
    ⟨s.hex ++ List.leftpad 2 48 (toString16 (buffer >>> bits &&& 255).toNat),
      buffer &&& ((1#32 <<< bits) - 1#32), bits⟩
  else ⟨s.hex, buffer, bits⟩

/-- The app id of the digits of a UUID. -/
def appIdOf (hex : Text) : Text :=
  units "app_" ++ slice hex 0 8 ++ [dash] ++ slice hex 8 12 ++ [dash] ++ slice hex 12 16 ++ [dash] ++
    slice hex 16 20 ++ [dash] ++ hex.drop 20

def appIdFromHostname (hostname : Text) : Option Text :=
  match hostnameKey hostname with
  | none => none
  | some key =>
    let appId := appIdOf (key.foldl Unkeying.character {}).hex
    if appOriginKey appId = key then some appId else none

/-! ## Digits -/

/-- The two digits of a byte. -/
def hexByte (n : Nat) : Text := List.leftpad 2 48 (toString16 n)

def hexDigit (n : Nat) : UInt16 := UInt16.ofNat (if n < 10 then 48 + n else 87 + n)

/-- The letter of five bits. -/
def letter (n : Nat) : UInt16 := appKeyAlphabet.getD n 0

theorem parseInt16_hexByte : ∀ n < 256, parseInt16 (hexByte n) = some (n : Int) := by decide +kernel

theorem length_hexByte : ∀ n < 256, (hexByte n).length = 2 := by decide +kernel

theorem hexByte_eq : ∀ i < 16, ∀ j < 16, hexByte (16 * i + j) = [hexDigit i, hexDigit j] := by
  decide +kernel

theorem letter_spec : ∀ n < 32,
    keyLetter (BitVec.ofNat 32 n) = [letter n] ∧ isKeyLetter (letter n) ∧ keyIndex (letter n) = n := by
  decide +kernel

theorem hexDigit_of_isHexDigit {u : UInt16} (h : isHexDigit u) : ∃ i < 16, u = hexDigit i := by
  simp only [isHexDigit, Bool.or_eq_true, Bool.and_eq_true, decide_eq_true_eq,
    UInt16.le_iff_toNat_le, UInt16.reduceToNat] at h
  obtain h | h := h
  · refine ⟨u.toNat - 48, by omega, UInt16.toNat_inj.mp ?_⟩
    rw [hexDigit, if_pos (by omega), UInt16.toNat_ofNat']
    omega
  · refine ⟨u.toNat - 87, by omega, UInt16.toNat_inj.mp ?_⟩
    rw [hexDigit, if_neg (by omega), UInt16.toNat_ofNat']
    omega

/-- Pairs of digits are bytes. -/
theorem hexBytes_of_isHexDigit : ∀ (n : Nat) {hex : Text}, hex.length = 2 * n →
    (∀ u ∈ hex, isHexDigit u) →
      ∃ ds : List Nat, ds.length = n ∧ (∀ d ∈ ds, d < 2 ^ 8) ∧ hex = ds.flatMap hexByte
  | 0, hex, hlength, _ => ⟨[], rfl, nofun, by simpa using hlength⟩
  | n + 1, u :: v :: hex, hlength, h => by
    obtain ⟨i, hi, rfl⟩ := hexDigit_of_isHexDigit (h u (by simp))
    obtain ⟨j, hj, rfl⟩ := hexDigit_of_isHexDigit (h v (by simp))
    obtain ⟨ds, hds, hlt, rfl⟩ := (@hexBytes_of_isHexDigit n hex)
      (by simpa [Nat.mul_add] using hlength) (fun w hw => h w (by simp [hw]))
    refine ⟨(16 * i + j) :: ds, by simp [hds], ?_, by simp [hexByte_eq i hi j hj]⟩
    intro d hd
    obtain rfl | hd := List.mem_cons.mp hd
    · omega
    · exact hlt d hd

/-! ## The buffers -/

theorem toNat_take {x : BitVec 32} {d k : Nat} (hx : x.toNat < 2 ^ 8) (hk : k ≤ 8)
    (hd : d < 2 ^ k) : (x <<< k ||| BitVec.ofInt 32 d).toNat = x.toNat * 2 ^ k + d := by
  have hpow : 2 ^ k ≤ 2 ^ 8 := Nat.pow_le_pow_right (by decide) hk
  have hprod : x.toNat * 2 ^ k ≤ 2 ^ 8 * 2 ^ 8 := Nat.mul_le_mul hx.le hpow
  rw [BitVec.ofInt_natCast, BitVec.toNat_or, BitVec.toNat_shiftLeft, BitVec.toNat_ofNat,
    Nat.mod_eq_of_lt (show d < 2 ^ 32 by omega), Nat.shiftLeft_eq,
    Nat.mod_eq_of_lt (show x.toNat * 2 ^ k < 2 ^ 32 by omega), ← Nat.shiftLeft_eq,
    ← Nat.shiftLeft_add_eq_or_of_lt hd]

theorem toNat_mask (x : BitVec 32) {n : Nat} (hn : n < 32) :
    (x &&& ((1#32 <<< n) - 1#32)).toNat = x.toNat % 2 ^ n := by
  have hpow : 2 ^ n < 2 ^ 32 := Nat.pow_lt_pow_right (by decide) hn
  have hone : (1#32 <<< n).toNat = 2 ^ n := by
    rw [BitVec.toNat_shiftLeft, Nat.shiftLeft_eq]
    simpa using Nat.mod_eq_of_lt hpow
  have hle : 1#32 ≤ 1#32 <<< n := by
    rw [BitVec.le_def, hone]
    exact Nat.one_le_two_pow
  rw [BitVec.toNat_and, BitVec.toNat_sub_of_le hle, hone]
  exact Nat.and_two_pow_sub_one_eq_mod _ _

theorem toNat_digit (x : BitVec 32) (n : Nat) {k : Nat} (hk : k < 32) :
    (x >>> n &&& BitVec.ofNat 32 (2 ^ k - 1)).toNat = x.toNat / 2 ^ n % 2 ^ k := by
  have hpow : 2 ^ k < 2 ^ 32 := Nat.pow_lt_pow_right (by decide) hk
  rw [BitVec.toNat_and, BitVec.toNat_ushiftRight, BitVec.toNat_ofNat, Nat.shiftRight_eq_div_pow,
    Nat.mod_eq_of_lt (by omega), Nat.and_two_pow_sub_one_eq_mod]

/-- A letter out of the buffer. -/
theorem keyLetter_digit (x : BitVec 32) (n : Nat) :
    keyLetter (x >>> n &&& 31) = [letter (x.toNat / 2 ^ n % 2 ^ 5)] := by
  have hdigit : (x >>> n &&& 31).toNat = x.toNat / 2 ^ n % 2 ^ 5 :=
    toNat_digit x n (show 5 < 32 by decide)
  have hlt : x.toNat / 2 ^ n % 2 ^ 5 < 32 := Nat.mod_lt _ (by decide)
  have hletter := (letter_spec _ hlt).1
  rwa [← hdigit, BitVec.ofNat_toNat, BitVec.setWidth_eq, hdigit] at hletter

/-- The letter of the last three bits. -/
theorem keyLetter_pad {x : BitVec 32} (hx : x.toNat < 2 ^ 3) :
    keyLetter (x <<< (5 - 3) &&& 31) = [letter (x.toNat * 2 ^ 2)] := by
  have hshift : (x <<< (5 - 3)).toNat = x.toNat * 2 ^ 2 := by
    rw [BitVec.toNat_shiftLeft, Nat.shiftLeft_eq, Nat.mod_eq_of_lt (by omega)]
  have hletter := keyLetter_digit (x <<< (5 - 3)) 0
  rwa [BitVec.ushiftRight_zero, hshift, pow_zero, Nat.div_one, Nat.mod_eq_of_lt (by omega)] at hletter

/-- The letters given and the buffer spell the bytes read. -/
def Keying.Spells (ds : List Nat) (s : Keying) : Prop :=
  ∃ out : List Nat, s.key = out.map letter ∧ Regroup.Spells 8 5 ds ⟨out, s.buffer.toNat, s.bits⟩

/-- The digits given and the buffer spell the letters read. -/
def Unkeying.Spells (es : List Nat) (s : Unkeying) : Prop :=
  ∃ out : List Nat, s.hex = out.flatMap hexByte ∧
    Regroup.Spells 5 8 es ⟨out, s.buffer.toNat, s.bits⟩

variable {ds es : List Nat} {s : Keying} {u : Unkeying} {d e : Nat}

theorem Keying.Spells.letters (h : s.Spells ds) :
    s.letters.Spells ds ∧ s.letters.buffer = s.buffer ∧ s.letters.bits < 5 ∧
      s.letters.bits ≤ s.bits := by
  fun_induction Keying.letters s with
  | case1 s hbits bits ih =>
    obtain ⟨out, hkey, hspells⟩ := h
    obtain ⟨hletters, hbuffer, hlt, hle⟩ := ih ⟨out ++ [s.buffer.toNat / 2 ^ bits % 2 ^ 5],
      by rw [hkey, keyLetter_digit, List.map_append]; rfl, hspells.give hbits⟩
    exact ⟨hletters, hbuffer, hlt, by simp only at hle; omega⟩
  | case2 s hbits => exact ⟨h, rfl, by omega, le_rfl⟩

theorem Keying.Spells.byte (h : s.Spells ds) (hbits : s.bits < 5)
    (hbuffer : s.buffer.toNat < 2 ^ s.bits) (hd : d < 2 ^ 8) :
    (s.byte (hexByte d)).Spells (ds ++ [d]) ∧ (s.byte (hexByte d)).bits < 5 ∧
      (s.byte (hexByte d)).buffer.toNat < 2 ^ (s.byte (hexByte d)).bits := by
  have hlt : s.buffer.toNat < 2 ^ 8 :=
    hbuffer.trans (Nat.pow_lt_pow_right (by decide) (by omega))
  have htake := toNat_take hlt le_rfl hd
  obtain ⟨out, hkey, hspells⟩ := h
  have hspells' : Keying.Spells (ds ++ [d])
      ⟨s.key, s.buffer <<< 8 ||| BitVec.ofInt 32 ((parseInt16 (hexByte d)).getD 0), s.bits + 8⟩ :=
    ⟨out, hkey, by
      rw [parseInt16_hexByte d hd, Option.getD_some, htake]
      exact hspells.take hd⟩
  obtain ⟨⟨out, hkey, hspells⟩, -, hlt, -⟩ := hspells'.letters
  have hmask := toNat_mask (Keying.letters ⟨s.key,
    s.buffer <<< 8 ||| BitVec.ofInt 32 ((parseInt16 (hexByte d)).getD 0), s.bits + 8⟩).buffer
    (hlt.trans (by decide))
  refine ⟨⟨out, hkey, ?_⟩, hlt, ?_⟩
  · simp only [Keying.byte, hmask]
    exact hspells.mask
  · simp only [Keying.byte, hmask]
    exact Nat.mod_lt _ (by positivity)

theorem Keying.bytes_cons (s : Keying) (hd : d < 2 ^ 8) (hex : Text) :
    s.bytes (hexByte d ++ hex) = (s.byte (hexByte d)).bytes hex := by
  obtain ⟨u, v, huv⟩ := List.length_eq_two.mp (length_hexByte d hd)
  rw [huv]
  rfl

theorem Keying.Spells.bytes (h : s.Spells ds) (hbits : s.bits < 5)
    (hbuffer : s.buffer.toNat < 2 ^ s.bits) {ds' : List Nat} (hds : ∀ d ∈ ds', d < 2 ^ 8) :
    (s.bytes (ds'.flatMap hexByte)).Spells (ds ++ ds') ∧
      (s.bytes (ds'.flatMap hexByte)).bits < 5 ∧
      (s.bytes (ds'.flatMap hexByte)).buffer.toNat <
        2 ^ (s.bytes (ds'.flatMap hexByte)).bits := by
  induction ds' generalizing s ds with
  | nil => simpa [Keying.bytes] using ⟨h, hbits, hbuffer⟩
  | cons d ds' ih =>
    have hd := hds d (by simp)
    obtain ⟨hspells, hlt, hbuffer⟩ := h.byte hbits hbuffer hd
    have hih := ih hspells hlt hbuffer fun d hd => hds d (by simp [hd])
    rwa [List.append_assoc, List.singleton_append, ← Keying.bytes_cons s hd] at hih

theorem Unkeying.Spells.character (h : u.Spells es) (hbits : u.bits < 8)
    (hbuffer : u.buffer.toNat < 2 ^ u.bits) (he : e < 2 ^ 5) :
    (u.character (letter e)).Spells (es ++ [e]) ∧ (u.character (letter e)).bits < 8 ∧
      (u.character (letter e)).buffer.toNat < 2 ^ (u.character (letter e)).bits := by
  have hlt : u.buffer.toNat < 2 ^ 8 := hbuffer.trans (Nat.pow_lt_pow_right (by decide) hbits)
  have htake := toNat_take hlt (by decide : 5 ≤ 8) he
  rw [← (letter_spec e he).2.2] at htake
  obtain ⟨out, hhex, hspells⟩ := h
  have hspells := hspells.take he
  simp only [Regroup.Carry.take, ← htake] at hspells
  unfold Unkeying.character
  generalize hx : u.buffer <<< 5 ||| BitVec.ofInt 32 (keyIndex (letter e)) = x at hspells htake ⊢
  simp only
  split
  · rename_i hle
    have hdigit : (x >>> (u.bits + 5 - 8) &&& 255).toNat =
        x.toNat / 2 ^ (u.bits + 5 - 8) % 2 ^ 8 :=
      toNat_digit x _ (show 8 < 32 by decide)
    have hmask := toNat_mask x (show u.bits + 5 - 8 < 32 by omega)
    refine ⟨⟨out ++ [x.toNat / 2 ^ (u.bits + 5 - 8) % 2 ^ 8], ?_, ?_⟩, by simp only; omega, ?_⟩
    · simp only [hhex, hdigit, List.flatMap_append, List.flatMap_singleton, hexByte]
    · simp only [hmask]
      exact (hspells.give hle).mask
    · simp only [hmask]
      exact Nat.mod_lt _ (by positivity)
  · refine ⟨⟨out, hhex, hspells⟩, by simp only; omega, ?_⟩
    have := Nat.mul_lt_mul_of_pos_right hbuffer (show 0 < 2 ^ 5 by decide)
    simp only [htake, pow_add]
    omega

theorem Unkeying.Spells.characters (h : u.Spells es) (hbits : u.bits < 8)
    (hbuffer : u.buffer.toNat < 2 ^ u.bits) {es' : List Nat} (hes : ∀ e ∈ es', e < 2 ^ 5) :
    ((es'.map letter).foldl Unkeying.character u).Spells (es ++ es') ∧
      ((es'.map letter).foldl Unkeying.character u).bits < 8 := by
  induction es' generalizing u es with
  | nil => simpa using ⟨h, hbits⟩
  | cons e es' ih =>
    obtain ⟨hspells, hlt, hbuffer⟩ := h.character hbits hbuffer (hes e (by simp))
    have hih := ih hspells hlt hbuffer fun e he => hes e (by simp [he])
    rwa [List.append_assoc, List.singleton_append] at hih

/-! ## There and back -/

/-- Sixteen bytes are spelled in 26 letters, and those spell the bytes with two bits more. -/
theorem appOriginKey_of_bytes {appId : Text} (hlength : ds.length = 16) (hds : ∀ d ∈ ds, d < 2 ^ 8)
    (hhex : (appId.drop 4).filter (fun u => u ≠ dash) = ds.flatMap hexByte) :
    ∃ es : List Nat, appOriginKey appId = es.map letter ∧ es.length = 26 ∧
      (∀ e ∈ es, e < 2 ^ 5) ∧
      Regroup.number (2 ^ 5) es = Regroup.number (2 ^ 8) ds * 2 ^ 2 := by
  have hnil : Keying.Spells [] {} := ⟨[], rfl, Regroup.Spells.nil 8 5⟩
  obtain ⟨⟨out, hkey, hspells⟩, hlt, hbuffer⟩ := hnil.bytes (by decide) (by decide) hds
  rw [List.nil_append] at hspells
  have hcount := hspells.length
  simp only [hlength] at hcount
  have hprefix : (units "app_").length = 4 := rfl
  simp only [appOriginKey, hprefix, hhex]
  generalize Keying.bytes {} (ds.flatMap hexByte) = s at *
  have hbits : s.bits = 3 := by omega
  have hout : out.length = 25 := by omega
  rw [hbits] at hbuffer hspells
  have hpad := hspells.pad (show 3 ≤ 5 by decide)
  simp only [Nat.mod_eq_of_lt hbuffer] at hpad
  refine ⟨out ++ [s.buffer.toNat * 2 ^ 2], ?_, by simp [hout], ?_, hpad⟩
  · rw [if_pos (by omega), hbits, keyLetter_pad hbuffer, hkey, List.map_append]
    rfl
  · intro e he
    obtain he | rfl := by simpa using he
    · exact hspells.out_lt e he
    · omega

/-- The letters of sixteen bytes are read as their digits. -/
theorem characters_of_number (hlength : ds.length = 16) (hds : ∀ d ∈ ds, d < 2 ^ 8)
    (hes : es.length = 26) (hlt : ∀ e ∈ es, e < 2 ^ 5)
    (hnumber : Regroup.number (2 ^ 5) es = Regroup.number (2 ^ 8) ds * 2 ^ 2) :
    ((es.map letter).foldl Unkeying.character {}).hex = ds.flatMap hexByte := by
  have hnil : Unkeying.Spells [] {} := ⟨[], rfl, Regroup.Spells.nil 5 8⟩
  obtain ⟨⟨out, hhex, hspells⟩, hbits⟩ := hnil.characters (by decide) (by decide) hlt
  rw [List.nil_append] at hspells
  have hout : out = ds :=
    hspells.regrouped (by decide) hnumber (by simp [hes, hlength]) (by decide) hbits hds
  rw [hhex, hout]

/-- The groups of lowercase digits of an app id. -/
structure Groups (appId a b c d e : Text) : Prop where
  eq : appId = units "app_" ++ a ++ [dash] ++ b ++ [dash] ++ c ++ [dash] ++ d ++ [dash] ++ e
  lengths : a.length = 8 ∧ b.length = 4 ∧ c.length = 4 ∧ d.length = 4 ∧ e.length = 12
  digits : ∀ u ∈ a ++ b ++ c ++ d ++ e, isHexDigit u

/-- `app_` and a lowercase UUID. -/
def IsAppId (appId : Text) : Prop := ∃ a b c d e, Groups appId a b c d e

theorem Groups.appIdOf {appId a b c d e : Text} (h : Groups appId a b c d e) :
    appIdOf (a ++ b ++ c ++ d ++ e) = appId := by
  obtain ⟨ha, hb, hc, hd, -⟩ := h.lengths
  rw [h.eq]
  simp [AppFrame.appIdOf, slice, List.drop_append, List.drop_of_length_le, ha, hb,
    hc, hd]

theorem filter_isHexDigit {hex : Text} (h : ∀ u ∈ hex, isHexDigit u) :
    hex.filter (fun u => u ≠ dash) = hex := by
  refine List.filter_eq_self.mpr fun u hu => ?_
  have hdash : u ≠ dash := by
    rintro rfl
    exact absurd (h dash hu) (by decide)
  simpa using hdash

/-- The digits of an app id. -/
theorem Groups.digits_of {appId a b c d e : Text} (h : Groups appId a b c d e) :
    (appId.drop 4).filter (fun u => u ≠ dash) = a ++ b ++ c ++ d ++ e := by
  have hdigits := h.digits
  simp only [List.mem_append, or_imp, forall_and] at hdigits
  obtain ⟨⟨⟨⟨ha, hb⟩, hc⟩, hd⟩, he⟩ := hdigits
  have hdash : [dash].filter (fun u => u ≠ dash) = [] := by decide
  have hdrop : appId.drop 4 =
      a ++ [dash] ++ b ++ [dash] ++ c ++ [dash] ++ d ++ [dash] ++ e := by
    rw [h.eq]
    rfl
  rw [hdrop]
  simp only [List.filter_append, hdash, List.append_nil]
  rw [filter_isHexDigit ha, filter_isHexDigit hb, filter_isHexDigit hc, filter_isHexDigit hd,
    filter_isHexDigit he]

/-- The key of an app id, and what its letters are read as. -/
theorem IsAppId.key {appId : Text} (h : IsAppId appId) :
    (appOriginKey appId).length = 26 ∧ (appOriginKey appId).all isKeyLetter ∧
      appIdOf ((appOriginKey appId).foldl Unkeying.character {}).hex = appId := by
  obtain ⟨a, b, c, d, e, h⟩ := h
  obtain ⟨ha, hb, hc, hd, he⟩ := h.lengths
  obtain ⟨ds, hlength, hds, hbytes⟩ :=
    hexBytes_of_isHexDigit 16 (by simp [ha, hb, hc, hd, he]) h.digits
  obtain ⟨es, hkey, hes, hlt, hnumber⟩ :=
    appOriginKey_of_bytes hlength hds (h.digits_of.trans hbytes)
  rw [hkey, characters_of_number hlength hds hes hlt hnumber, ← hbytes, h.appIdOf]
  refine ⟨by simpa using hes, List.all_eq_true.mpr fun u hu => ?_, rfl⟩
  obtain ⟨n, hn, rfl⟩ := List.mem_map.mp hu
  exact (letter_spec n (hlt n hn)).2.1

/-- A label is the first of a hostname, of several or alone. -/
def FirstLabel (label hostname : Text) : Prop :=
  hostname = label ∨ ∃ rest, hostname = label ++ dot :: rest

/-- The labels of an app: its key, or that with a dash and 32 digits. -/
def IsLabelOf (appId label : Text) : Prop :=
  label = appOriginKey appId ∨
    ∃ digits : Text, digits.length = 32 ∧ (∀ u ∈ digits, isHexDigit u) ∧
      label = appOriginKey appId ++ dash :: digits

theorem followsKey_dot (rest : Text) : followsKey (dot :: rest) = true := by
  simp [followsKey]

theorem followsKey_dash {digits : Text} (hlength : digits.length = 32)
    (h : ∀ u ∈ digits, isHexDigit u) (rest : Text) :
    followsKey (dash :: (digits ++ dot :: rest)) = true := by
  have htake : (digits ++ dot :: rest).take 32 = digits := by simp [← hlength]
  have hdot : (digits ++ dot :: rest)[32]? = some dot := by simp [← hlength]
  simp only [followsKey, List.drop_succ_cons, List.drop_zero, htake, List.head?_cons,
    List.getElem?_cons_succ, hdot, beq_self_eq_true, Bool.true_and, Bool.and_true]
  simpa using .inr h

theorem hostnameKey_append {key rest : Text} (hlength : key.length = 26)
    (hkey : key.all isKeyLetter) (hrest : followsKey rest) : hostnameKey (key ++ rest) = some key := by
  have htake : (key ++ rest).take 26 = key := by simp [← hlength]
  have hdrop : (key ++ rest).drop 26 = rest := by simp [← hlength]
  simp only [hostnameKey, htake, hdrop, hlength, hkey, hrest, and_self, if_true]

theorem appIdFromHostname_append {appId rest : Text} (h : IsAppId appId) (hrest : followsKey rest) :
    appIdFromHostname (appOriginKey appId ++ rest) = some appId := by
  obtain ⟨hlength, hkey, happId⟩ := h.key
  simp only [appIdFromHostname, hostnameKey_append hlength hkey hrest, happId, if_true]

/-- An app id is read from every hostname of several labels the first of which is the app's, and
what is read from a hostname has the first 26 units of it as its key. -/
theorem one_spelling :
    (∀ appId label hostname rest, IsAppId appId → IsLabelOf appId label →
      hostname = label ++ dot :: rest → appIdFromHostname hostname = some appId) ∧
    ∀ hostname appId, appIdFromHostname hostname = some appId →
      appOriginKey appId = hostname.take 26 ∧ 26 ≤ hostname.length := by
  constructor
  · rintro appId label hostname rest happId (rfl | ⟨digits, hlength, hdigits, rfl⟩) rfl
    · exact appIdFromHostname_append happId (followsKey_dot rest)
    · rw [List.append_assoc, List.cons_append]
      exact appIdFromHostname_append happId (followsKey_dash hlength hdigits rest)
  · intro hostname appId h
    unfold appIdFromHostname hostnameKey at h
    simp only at h
    split at h
    · exact absurd h nofun
    · rename_i key hkey
      obtain ⟨⟨hlength, -⟩, hkey⟩ := Option.ite_none_right_eq_some.mp hkey
      obtain ⟨hspelled, happId⟩ := Option.ite_none_right_eq_some.mp h
      rw [← Option.some.inj hkey] at hspelled happId
      refine ⟨Option.some.inj happId ▸ hspelled, ?_⟩
      rw [List.length_take] at hlength
      omega

def someAppId : Text := units "app_00112233-4455-6677-8899-aabbccddeeff"

theorem isAppId_some : IsAppId someAppId :=
  ⟨units "00112233", units "4455", units "6677", units "8899", units "aabbccddeeff",
    by decide, by decide, List.all_iff_forall_prop.mp (by decide)⟩

/-- The app id is read from a hostname of two labels. -/
theorem one_spelling_localhost :
    appIdFromHostname (appOriginKey someAppId ++ dot :: units "localhost") = some someAppId :=
  one_spelling.1 _ _ _ _ isAppId_some (.inl rfl) rfl

/-- From the label alone nothing is read. -/
theorem label_alone : IsAppId someAppId ∧ IsLabelOf someAppId (appOriginKey someAppId) ∧
    FirstLabel (appOriginKey someAppId) (appOriginKey someAppId) ∧
    appIdFromHostname (appOriginKey someAppId) ≠ some someAppId :=
  ⟨isAppId_some, .inl rfl, .inl rfl, by decide +kernel⟩

end Opensteer.AppFrame
