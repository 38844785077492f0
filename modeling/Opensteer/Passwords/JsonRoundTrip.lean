import Opensteer.Passwords.JsonBounds

/-!
# One encoding of each value

What is encoded is parsed to the value again (`parse_encode`), and nothing else is taken as canonical than
what a value is encoded to (`parseCanonical_iff`): a parser at the text of a value reads the value and goes
on behind it (`parseValue_spell`), whatever comes there.
-/

namespace Opensteer.Passwords

variable {α β : Type} {repair : List UInt8 → Scalars}

@[simp] theorem ok_bind (a : α) (f : α → Outcome β) : ((.ok a : Outcome α) >>= f) = f a := rfl

theorem ensure_of {condition : Prop} [Decidable condition] {error : JSONError} (h : condition) :
    ensure condition error = .ok () := if_pos h

theorem int64_of {n : Int} (h : -2 ^ 63 ≤ n) (h' : n < 2 ^ 63) : int64 n = .ok n := if_pos ⟨h, h'⟩

/-! ## UTF-8 -/

theorem utf8_append (text text' : Scalars) : utf8 (text ++ text') = utf8 text ++ utf8 text' := List.flatMap_append

theorem decoding_utf8 (text : Scalars) : decoding repair (utf8 text) = text := by
  have h : (utf8 text).toByteArray.utf8Decode? = some text.toArray := List.utf8Decode?_utf8Encode
  rw [decoding, h]

theorem utf8_injective {text text' : Scalars} (h : utf8 text = utf8 text') : text = text' := by
  rw [← (@decoding_utf8 (fun _ => [])) text, h, decoding_utf8]

/-- Of bytes that are some text's UTF-8 it is the text. -/
theorem decode_utf8 (text : Scalars) : UTF8Text.decode repair (utf8 text) = some text := by
  unfold UTF8Text.decode
  rw [decoding_utf8]
  exact if_pos rfl

namespace CanonicalJSON

namespace Parser

variable {p : Parser} {byte : UInt8} {text tail : List UInt8} {n bound : Nat}

/-! ## At a text -/

theorem rest_advance (p : Parser) (n : Nat) : (p.advance n).rest = p.rest.drop n := by
  rw [rest, rest, List.drop_drop]
  rfl

theorem rest_advance_of (h : p.rest = text ++ tail) : (p.advance text.length).rest = tail := by
  rw [rest_advance, h, List.drop_left]

@[simp] theorem advance_advance (p : Parser) (n m : Nat) : (p.advance n).advance m = p.advance (n + m) := by
  simp [advance, Nat.add_assoc]

theorem index_lt_of (h : p.rest = byte :: tail) : p.index < p.bytes.length := by
  have hlength := length_rest p
  rw [h, List.length_cons] at hlength
  omega

theorem byte_of (h : p.rest = byte :: tail) : p.byte p.index = .ok byte := by
  have hhead : p.bytes[p.index]? = some byte := by
    rw [← Nat.add_zero p.index, ← List.getElem?_drop]
    show p.rest[0]? = some byte
    rw [h]
    rfl
  rw [Parser.byte, hhead]

theorem peek_of (h : p.rest = byte :: tail) : p.peek = .ok byte := by
  rw [peek, ensure_of (index_lt_of h), ok_bind, byte_of h]

theorem skipWhitespace_of (h : p.rest = byte :: tail) (hspace : isWhitespace byte = false) : p.skipWhitespace = p := by
  rw [skipWhitespace, h, List.takeWhile_cons_of_neg (by rw [hspace]; exact Bool.false_ne_true)]
  rfl

theorem expect_of (h : p.rest = text ++ tail) : p.expect text = .ok (p.advance text.length) := by
  induction text generalizing p with
  | nil => rfl
  | cons byte text ih =>
    have hrest : (p.advance 1).rest = text ++ tail := (@rest_advance_of _ [byte]) h
    rw [expect, ensure_of (index_lt_of h), ok_bind, byte_of h, ok_bind, ensure_of rfl, ok_bind, ih hrest,
      advance_advance, List.length_cons, Nat.add_comm]

/-! ## Strings -/

/-- A backslash, and the bytes that its escape stands for. -/
theorem stringFrom_backslash {start : Nat} {out bytes : List UInt8} (h : p.rest = mark '\\' :: (text ++ tail))
    (hescape : (p.advance 1).parseEscape = .ok (bytes, (p.advance 1).advance text.length)) :
    p.stringFrom repair start (bound + 1) out =
      (p.advance (text.length + 1)).stringFrom repair start bound (out ++ bytes) := by
  rw [stringFrom, ensure_of (index_lt_of h), ok_bind, byte_of h, ok_bind]
  dsimp only
  rw [if_neg (by decide), if_pos rfl, hescape, ok_bind]
  dsimp only
  rw [advance_advance, Nat.add_comm]

theorem parseEscape_of {escape : UInt8} (h : p.rest = escape :: tail) (hu : escape ≠ mark 'u')
    (hbyte : unescape escape = some byte) : p.parseEscape = .ok ([byte], p.advance 1) := by
  rw [parseEscape, ensure_of (index_lt_of h), ok_bind, byte_of h, ok_bind]
  dsimp only
  rw [if_neg hu, hbyte]
  rfl

theorem parseHex4_of {digits : List UInt8} {value : UInt32} (h : p.rest = digits ++ tail) (hlength : digits.length = 4)
    (hvalue : hex4 digits = some value) : p.parseHex4 = .ok (value, p.advance 4) := by
  have hwithin : p.index + 4 ≤ p.bytes.length := by
    have hrest := length_rest p
    rw [h, List.length_append, hlength] at hrest
    omega
  have hslice : p.slice 4 = .ok digits := by
    rw [slice, if_pos hwithin, h, ← hlength, List.take_left]
  rw [parseHex4, ensure_of hwithin, ok_bind, hslice, ok_bind, hvalue]
  rfl

/-- What is written of a control character is an escape of its code. -/
theorem hex4_control : ∀ n < 32,
    hex4 [mark '0', mark '0', Hex.digits.getD (UInt8.ofNat n >>> 4).toNat 0,
      Hex.digits.getD (UInt8.ofNat n &&& 0x0f).toNat 0] = some (UInt32.ofNat n) ∧
    unicodeScalar (UInt32.ofNat n) = some (Char.ofNat n) ∧ utf8 [Char.ofNat n] = [UInt8.ofNat n] ∧
    ¬(0xd800 ≤ UInt32.ofNat n ∧ UInt32.ofNat n ≤ 0xdbff) := by
  decide +kernel

theorem parseEscape_control (hcontrol : byte < 0x20) (h : p.rest =
    [mark 'u', mark '0', mark '0', Hex.digits.getD (byte >>> 4).toNat 0, Hex.digits.getD (byte &&& 0x0f).toNat 0] ++ tail) :
    p.parseEscape = .ok ([byte], p.advance 5) := by
  obtain ⟨hhex, hscalar, hutf8, hpair⟩ := hex4_control byte.toNat (UInt8.lt_iff_toNat_lt.mp hcontrol)
  rw [UInt8.ofNat_toNat] at hhex hutf8
  have hparsed := (@parseHex4_of (p.advance 1) tail) ((@rest_advance_of _ [mark 'u']) h) rfl hhex
  have hindex : p.rest = mark 'u' :: ([mark '0', mark '0', Hex.digits.getD (byte >>> 4).toNat 0,
    Hex.digits.getD (byte &&& 0x0f).toNat 0] ++ tail) := h
  rw [parseEscape, ensure_of (index_lt_of hindex), ok_bind, byte_of hindex, ok_bind]
  dsimp only
  rw [if_pos rfl, parseUnicodeEscape, hparsed, ok_bind]
  dsimp only
  rw [if_neg hpair, hscalar]
  dsimp only
  rw [advance_advance]
  show Except.ok (utf8 [Char.ofNat byte.toNat], p.advance 5) = _
  rw [hutf8]

/-- The escapes that are no code, and what is escaped by them. -/
theorem escaped_short : ∀ byte ∈ ([0x22, 0x5c, 0x08, 0x09, 0x0a, 0x0c, 0x0d] : List UInt8), ∃ escape,
    escaped byte = [mark '\\', escape] ∧ escape ≠ mark 'u' ∧ unescape escape = some byte := by
  intro byte hbyte
  simp only [List.mem_cons, List.not_mem_nil, or_false] at hbyte
  rcases hbyte with rfl | rfl | rfl | rfl | rfl | rfl | rfl
  · exact ⟨0x22, by decide⟩
  · exact ⟨0x5c, by decide⟩
  · exact ⟨mark 'b', by decide⟩
  · exact ⟨mark 't', by decide⟩
  · exact ⟨mark 'n', by decide⟩
  · exact ⟨mark 'f', by decide⟩
  · exact ⟨mark 'r', by decide⟩

theorem escaped_other (h : byte ∉ ([0x22, 0x5c, 0x08, 0x09, 0x0a, 0x0c, 0x0d] : List UInt8)) : escaped byte =
    if byte < 0x20 then [0x5c, mark 'u', mark '0', mark '0', Hex.digits.getD (byte >>> 4).toNat 0,
      Hex.digits.getD (byte &&& 0x0f).toNat 0]
    else [byte] := by
  simp only [List.mem_cons, List.not_mem_nil, or_false, not_or] at h
  obtain ⟨h₁, h₂, h₃, h₄, h₅, h₆, h₇⟩ := h
  rw [escaped, if_neg h₁, if_neg h₂, if_neg h₃, if_neg h₄, if_neg h₅, if_neg h₆, if_neg h₇]

/-- A byte of a string is read as it was written. -/
theorem stringFrom_escaped {start : Nat} {out : List UInt8} (h : p.rest = escaped byte ++ tail) :
    p.stringFrom repair start (bound + 1) out =
      (p.advance (escaped byte).length).stringFrom repair start bound (out ++ [byte]) := by
  by_cases hshort : byte ∈ ([0x22, 0x5c, 0x08, 0x09, 0x0a, 0x0c, 0x0d] : List UInt8)
  · obtain ⟨escape, hescaped, hu, hunescape⟩ := escaped_short byte hshort
    rw [hescaped] at h ⊢
    exact (@stringFrom_backslash _ _ [escape]) h
      (parseEscape_of ((@rest_advance_of _ [mark '\\']) h) hu hunescape)
  · rw [escaped_other hshort] at h ⊢
    split at h
    · rename_i hcontrol
      rw [if_pos hcontrol]
      exact (@stringFrom_backslash _ _ [mark 'u', _, _, _, _]) h
        (parseEscape_control hcontrol ((@rest_advance_of _ [mark '\\']) h))
    · rename_i hcontrol
      rw [if_neg hcontrol]
      have hquote : byte ≠ mark '"' := fun hbyte => hshort (hbyte ▸ by decide)
      have hbackslash : byte ≠ mark '\\' := fun hbyte => hshort (hbyte ▸ by decide)
      rw [stringFrom, ensure_of (index_lt_of h), ok_bind, byte_of h, ok_bind]
      dsimp only
      rw [if_neg hquote, if_neg hbackslash, if_neg hcontrol]
      rfl

theorem stringFrom_of {start : Nat} {out bytes : List UInt8} (h : p.rest = bytes.flatMap escaped ++ mark '"' :: tail)
    (hbound : bytes.length < bound) :
    p.stringFrom repair start bound out =
      .ok (decoding repair (out ++ bytes), p.advance ((bytes.flatMap escaped).length + 1)) := by
  induction bytes generalizing p out bound with
  | nil =>
    obtain ⟨bound, rfl⟩ : ∃ b, bound = b + 1 := ⟨bound - 1, by omega⟩
    rw [stringFrom, ensure_of (index_lt_of h), ok_bind, byte_of h, ok_bind]
    dsimp only
    rw [if_pos rfl, List.append_nil]
    rfl
  | cons byte bytes ih =>
    obtain ⟨bound, rfl⟩ : ∃ b, bound = b + 1 := ⟨bound - 1, by omega⟩
    rw [List.flatMap_cons, List.append_assoc] at h
    rw [stringFrom_escaped h, ih (rest_advance_of h) (by simpa using hbound), advance_advance, List.append_assoc,
      List.flatMap_cons, List.length_append, Nat.add_assoc]
    rfl

theorem escaped_ne_nil (byte : UInt8) : escaped byte ≠ [] := by
  by_cases hshort : byte ∈ ([0x22, 0x5c, 0x08, 0x09, 0x0a, 0x0c, 0x0d] : List UInt8)
  · obtain ⟨escape, hescaped, -⟩ := escaped_short byte hshort
    simp [hescaped]
  · rw [escaped_other hshort]
    split <;> simp

theorem length_le_flatMap_escaped (bytes : List UInt8) : bytes.length ≤ (bytes.flatMap escaped).length := by
  induction bytes with
  | nil => exact le_rfl
  | cons byte bytes ih =>
    have := List.length_pos_of_ne_nil (escaped_ne_nil byte)
    rw [List.flatMap_cons, List.length_append, List.length_cons]
    omega

theorem parseString_of {key : Scalars} (h : p.rest = writeString key ++ tail) :
    p.parseString repair = .ok (key, p.advance (writeString key).length) := by
  have hopened : (p.advance 1).rest = (utf8 key).flatMap escaped ++ mark '"' :: tail := by
    have hrest : p.rest = [mark '"'] ++ ((utf8 key).flatMap escaped ++ mark '"' :: tail) := by
      rw [h, writeString]
      simp
    exact (@rest_advance_of _ [mark '"']) hrest
  have hlength := length_rest p
  have hle := length_le_flatMap_escaped (utf8 key)
  rw [h, writeString] at hlength
  simp only [List.cons_append, List.length_cons, List.length_append, List.length_nil] at hlength
  rw [parseString, stringFrom_of hopened (by omega), advance_advance, List.nil_append, decoding_utf8, writeString,
    List.length_cons, List.length_append, Nat.add_comm 1]
  rfl

/-! ## Integers -/

/-- What cannot go on with an integer. -/
def Stops (tail : List UInt8) : Prop := ∀ byte ∈ tail.head?, isDigit byte = false ∧ byte ∉ ['.', 'e', 'E'].map mark

/-- The bytes of a number's digits. -/
def digitBytes (n : Nat) : List UInt8 := (Decimal.digitsOf n).map fun digit => UInt8.ofNat (48 + digit)

theorem toNat_digitByte {d : Nat} (h : d < 10) : (UInt8.ofNat (48 + d)).toNat = 48 + d :=
  UInt8.toNat_ofNat_of_lt' (by show 48 + d < 256; omega)

theorem isDigit_of_mem {n : Nat} (h : byte ∈ digitBytes n) : isDigit byte = true := by
  obtain ⟨d, hd, rfl⟩ := List.mem_map.mp h
  have hten := Decimal.lt_of_mem_digitsOf hd
  rw [isDigit_iff, toNat_digitByte hten]
  omega

theorem accumulate_of {ds : List Nat} {value k : Nat} (hds : ∀ d ∈ ds, d < 10) (hvalue : value < 10 ^ k)
    (hk : k + ds.length ≤ 18) : accumulate (ds.map fun d => UInt8.ofNat (48 + d)) (value : Int) =
      .ok (ds.foldl (fun n d => n * 10 + d) value : Nat) := by
  induction ds generalizing value k with
  | nil => rfl
  | cons d ds ih =>
    obtain ⟨hd, hds⟩ := List.forall_mem_cons.mp hds
    rw [List.length_cons] at hk
    have hpow : 10 ^ (k + 1) ≤ 10 ^ 18 := Nat.pow_le_pow_right (by decide) (by omega)
    have hdigit : (UInt8.ofNat (48 + d) - mark '0').toNat = d := by
      have hle : mark '0' ≤ UInt8.ofNat (48 + d) := by
        rw [UInt8.le_iff_toNat_le, toNat_digitByte hd]
        exact Nat.le_add_right 48 d
      rw [UInt8.toNat_sub_of_le _ _ hle, toNat_digitByte hd]
      exact Nat.add_sub_cancel_left 48 d
    rw [List.map_cons, accumulate, int64_of (by omega) (by omega), ok_bind, hdigit, int64_of (by omega) (by omega), ok_bind]
    exact (@ih (value * 10 + d) (k + 1)) hds (by omega) (by omega)

theorem getElem?_index (p : Parser) : p.bytes[p.index]? = p.rest.head? := by
  rw [rest, List.head?_drop]

/-- What the parser finds at the digits of a number. -/
theorem digits_of {n : Nat} (h : p.rest = digitBytes n ++ tail) (hstops : Stops tail) (hsafe : (n : Int) ≤ maxSafeInteger) :
    p.rest.takeWhile isDigit = digitBytes n ∧ digitBytes n ≠ [] ∧
      (((p.advance (digitBytes n).length).bytes[(p.advance (digitBytes n).length).index]?.all
        fun byte => byte ∉ ['.', 'e', 'E'].map mark) = true) ∧
      ((digitBytes n).length = 1 ∨ (digitBytes n).head? ≠ some (mark '0')) ∧ (digitBytes n).length ≤ 16 ∧
      accumulate (digitBytes n) 0 = .ok (n : Int) := by
  have hlt : n < 10 ^ 16 := by
    have hmax : maxSafeInteger < 10 ^ 16 := by decide
    omega
  have hlength : (digitBytes n).length ≤ 16 := by
    rw [digitBytes, List.length_map]
    exact (Decimal.length_digitsOf_le (by decide)).mpr hlt
  refine ⟨?_, ?_, ?_, ?_, hlength, ?_⟩
  · rw [h, List.takeWhile_append_of_pos fun byte hbyte => isDigit_of_mem hbyte]
    cases tail with
    | nil => exact List.append_nil _
    | cons byte tail =>
      rw [List.takeWhile_cons_of_neg (by rw [(hstops byte rfl).1]; exact Bool.false_ne_true), List.append_nil]
  · simpa [digitBytes] using Decimal.digitsOf_ne_nil n
  · rw [getElem?_index, rest_advance_of h]
    cases tail with
    | nil => rfl
    | cons byte tail => simpa using (hstops byte rfl).2
  · by_cases hzero : n = 0
    · subst hzero
      exact .inl rfl
    · refine .inr ?_
      have hhead := Decimal.head_digitsOf hzero
      rw [digitBytes, List.head?_map]
      cases hd : (Decimal.digitsOf n).head? with
      | none => exact fun hnone => (nomatch hnone)
      | some d =>
        intro hmark
        have hten := Decimal.lt_of_mem_digitsOf (List.mem_of_head? hd)
        have hcode := congrArg UInt8.toNat (Option.some.inj hmark)
        rw [toNat_digitByte hten] at hcode
        have hcode : 48 + d = 48 := hcode
        exact hhead (hd.trans (congrArg some (by omega)))
  · rw [digitBytes, List.length_map] at hlength
    have hvalue := (@accumulate_of _ 0 0) (fun d hd => Decimal.lt_of_mem_digitsOf (n := n) hd) (by decide) (by omega)
    rw [Decimal.foldl_digitsOf] at hvalue
    exact hvalue

theorem parseInteger_of {number : Int} (h : p.rest = decimal number ++ tail) (hstops : Stops tail) (hsafe : Safe number) :
    p.parseInteger = .ok (number, p.advance (decimal number).length) := by
  by_cases hneg : number < 0
  · have hdecimal : decimal number = mark '-' :: digitBytes number.natAbs := by
      rw [decimal, if_pos hneg]
      rfl
    have hnatAbs : (number.natAbs : Int) = -number := by omega
    rw [hdecimal] at h ⊢
    have hdigits : (p.advance 1).rest = digitBytes number.natAbs ++ tail := (@rest_advance_of _ [mark '-']) h
    obtain ⟨htake, hne, hpoint, hzero, hsixteen, hvalue⟩ :=
      digits_of hdigits hstops (by rw [hnatAbs]; exact Int.neg_le_of_neg_le hsafe.1)
    rw [parseInteger, byte_of h, ok_bind]
    dsimp only
    rw [if_pos rfl, htake, ensure_of hne, ok_bind, ensure_of hpoint, ok_bind, ensure_of hzero, ok_bind, ensure_of hsixteen,
      ok_bind, hvalue, ok_bind, ensure_of (by rw [hnatAbs]; exact Int.neg_le_of_neg_le hsafe.1), ok_bind, if_pos rfl,
      ensure_of (by omega), ok_bind, hnatAbs, neg_neg, advance_advance, List.length_cons, Nat.add_comm]
    rfl
  · have hdecimal : decimal number = digitBytes number.natAbs := by
      rw [decimal, if_neg hneg]
      rfl
    have hnatAbs : (number.natAbs : Int) = number := by omega
    rw [hdecimal] at h ⊢
    obtain ⟨htake, hne, hpoint, hzero, hsixteen, hvalue⟩ := digits_of h hstops (by rw [hnatAbs]; exact hsafe.2)
    obtain ⟨digit, digits, hcons⟩ := List.exists_cons_of_ne_nil hne
    have hfirst : p.rest = digit :: (digits ++ tail) := by rw [h, hcons, List.cons_append]
    have hminus : digit ≠ mark '-' := fun hmark => by
      have hdigit := isDigit_of_mem (n := number.natAbs) (hcons ▸ List.mem_cons_self)
      rw [hmark] at hdigit
      exact absurd hdigit (by decide)
    rw [parseInteger, byte_of hfirst, ok_bind]
    dsimp only
    rw [if_neg hminus, htake, ensure_of hne, ok_bind, ensure_of hpoint, ok_bind, ensure_of hzero, ok_bind,
      ensure_of hsixteen, ok_bind, hvalue, ok_bind, ensure_of (by rw [hnatAbs]; exact hsafe.2), ok_bind, if_neg hminus, hnatAbs]
    rfl

/-! ## Values -/

/-- The parser behind so many bytes and values. -/
def gone (p : Parser) (n k : Nat) : Parser := { p with index := p.index + n, values := p.values + k }

theorem advance_eq_gone (p : Parser) (n : Nat) : p.advance n = p.gone n 0 := rfl

@[simp] theorem gone_gone (p : Parser) (n k n' k' : Nat) : (p.gone n k).gone n' k' = p.gone (n + n') (k + k') := by
  simp [gone, Nat.add_assoc]

theorem gone_congr {n' k k' : Nat} (hn : n = n') (hk : k = k') : p.gone n k = p.gone n' k' := by rw [hn, hk]

theorem rest_gone_of {k : Nat} (h : p.rest = text ++ tail) : (p.gone text.length k).rest = tail := rest_advance_of h

/-- Neither white space nor the mark that closes. -/
def Opens (byte : UInt8) : Prop := isWhitespace byte = false ∧ byte ≠ mark ']' ∧ byte ≠ mark '}'

instance : DecidablePred Opens := fun _ => inferInstanceAs (Decidable (_ ∧ _))

theorem exists_head_decimal (number : Int) : ∃ byte text, decimal number = byte :: text ∧
    (byte = mark '-' ∨ isDigit byte = true) := by
  by_cases hneg : number < 0
  · exact ⟨mark '-', digitBytes number.natAbs, by rw [decimal, if_pos hneg]; rfl, .inl rfl⟩
  · have hdecimal : decimal number = digitBytes number.natAbs := by
      rw [decimal, if_neg hneg]
      rfl
    obtain ⟨digit, digits, hcons⟩ := List.exists_cons_of_ne_nil
      (show digitBytes number.natAbs ≠ [] by simpa [digitBytes] using Decimal.digitsOf_ne_nil _)
    exact ⟨digit, digits, hdecimal.trans hcons, .inr (isDigit_of_mem (n := number.natAbs) (hcons ▸ List.mem_cons_self))⟩

theorem opens_of_number (h : byte = mark '-' ∨ isDigit byte = true) : Opens byte := by
  rcases h with rfl | h
  · decide
  · obtain ⟨hle, hle'⟩ := isDigit_iff.mp h
    have hbyte : byte = UInt8.ofNat byte.toNat := UInt8.ofNat_toNat.symm
    rw [hbyte]
    have hall : ∀ n, 48 ≤ n → n ≤ 57 → Opens (UInt8.ofNat n) := by
      intro n hn hn'
      interval_cases n <;> decide
    exact hall _ hle hle'

/-- The text of a value opens with what no white space is skipped at. -/
theorem exists_head_spell (v : JSONValue) : ∃ byte text, v.spell script = byte :: text ∧ Opens byte := by
  cases v with
  | null => exact ⟨mark 'n', "ull".toList.map mark, rfl, by decide⟩
  | bool b =>
    cases b with
    | true => exact ⟨mark 't', "rue".toList.map mark, rfl, by decide⟩
    | false => exact ⟨mark 'f', "alse".toList.map mark, rfl, by decide⟩
  | number n =>
    obtain ⟨byte, text, hcons, hfirst⟩ := exists_head_decimal n
    exact ⟨byte, text, hcons, opens_of_number hfirst⟩
  | string s => exact ⟨mark '"', _, rfl, by decide⟩
  | array items => exact ⟨mark '[', _, rfl, by decide⟩
  | object fields => exact ⟨mark '{', _, rfl, by decide⟩

/-- A parser at the text of a value reads it. -/
def ReadsBack (repair : List UInt8 → Scalars) (v : JSONValue) : Prop :=
  ∀ (p : Parser) (tail : List UInt8) (bound depth : Nat), p.rest = v.spell script ++ tail → Stops tail →
    3 * (v.spell script).length ≤ bound → FitsAt depth v → allows p.maxValues (p.values + v.count) →
    allows p.maxArrayCount v.widest →
    p.parseValue repair bound depth = .ok (v, p.gone (v.spell script).length v.count)

theorem allows_le {limit : Option Nat} {m : Nat} (h : allows limit n) (hle : m ≤ n) : allows limit m :=
  fun l hl => hle.trans (h l hl)

theorem closes_close {close : UInt8} (h : p.rest = close :: tail) : p.closes close = .ok (true, p.advance 1) := by
  rw [closes, peek_of h, ok_bind]
  dsimp only
  rw [if_pos rfl]
  rfl

theorem closes_comma {close : UInt8} (h : p.rest = mark ',' :: tail) (hclose : mark ',' ≠ close) :
    p.closes close = .ok (false, p.advance 1) := by
  rw [closes, peek_of h, ok_bind]
  dsimp only
  rw [if_neg hclose, ensure_of rfl, ok_bind]
  rfl

/-- The marks behind a part. -/
def Follows (byte : UInt8) : Prop := byte = mark ',' ∨ byte = mark ']' ∨ byte = mark '}'

theorem Follows.stops (h : Follows byte) : Stops (byte :: tail) := by
  rintro b ⟨rfl⟩
  rcases h with rfl | rfl | rfl <;> decide

theorem Follows.isWhitespace (h : Follows byte) : isWhitespace byte = false := by
  rcases h with rfl | rfl | rfl <;> rfl

section Parts

variable {depth : Nat} {v : JSONValue} {key : Scalars} {elements : List JSONValue} {fields : List (Scalars × JSONValue)}

/-- An element, up to what is behind it. -/
theorem elementsFrom_step (hback : ReadsBack repair v) (h : p.rest = v.spell script ++ byte :: tail) (hfollows : Follows byte)
    (hbound : 3 * (v.spell script).length ≤ bound) (hfits : FitsAt depth v) (hvalues : allows p.maxValues (p.values + v.count))
    (hwidest : allows p.maxArrayCount v.widest) (hwidth : allows p.maxArrayCount (elements.length + 1)) :
    p.elementsFrom repair (bound + 1) depth elements =
      (p.gone (v.spell script).length v.count).closes (mark ']') >>= fun r =>
        if r.1 then .ok (.array (elements ++ [v]), r.2) else r.2.elementsFrom repair bound depth (elements ++ [v]) := by
  obtain ⟨first, text, hhead, hopens⟩ := exists_head_spell v
  have hspace : p.skipWhitespace = p := skipWhitespace_of (by rw [h, hhead]; rfl) hopens.1
  have hread := hback p (byte :: tail) bound depth h hfollows.stops hbound hfits hvalues hwidest
  have hlength : allows (p.gone (v.spell script).length v.count).maxArrayCount (elements ++ [v]).length := by
    rw [List.length_append]
    exact hwidth
  rw [elementsFrom, hspace, hread, ok_bind]
  dsimp only
  rw [ensure_of hlength, ok_bind, skipWhitespace_of (rest_gone_of h) hfollows.isWhitespace]
  rfl

/-- A field, up to what is behind it. -/
theorem fieldsFrom_step (hback : ReadsBack repair v) (h : p.rest = script.pair key (v.spell script) ++ byte :: tail)
    (hfollows : Follows byte) (hbound : 3 * (v.spell script).length ≤ bound) (hfits : FitsAt depth v)
    (hvalues : allows p.maxValues (p.values + v.count)) (hwidest : allows p.maxArrayCount v.widest)
    (hkey : key ∉ fields.map Prod.fst) :
    p.fieldsFrom repair (bound + 1) depth fields =
      (p.gone (script.pair key (v.spell script)).length v.count).closes (mark '}') >>= fun r =>
        if r.1 then .ok (.object (fields ++ [(key, v)]), r.2)
        else r.2.fieldsFrom repair bound depth (fields ++ [(key, v)]) := by
  obtain ⟨first, text, hhead, hopens⟩ := exists_head_spell v
  have hquoted : p.rest = writeString key ++ mark ':' :: (v.spell script ++ byte :: tail) := by
    rw [h]
    exact List.append_assoc ..
  have hquote : p.rest = mark '"' :: ((utf8 key).flatMap escaped ++ [mark '"'] ++ mark ':' :: (v.spell script ++ byte :: tail)) :=
    hquoted
  have hcolon := rest_advance_of hquoted
  have hvalue : ((p.advance (writeString key).length).advance 1).rest = v.spell script ++ byte :: tail :=
    (@rest_advance_of _ [mark ':']) hcolon
  have hread := hback _ (byte :: tail) bound depth hvalue hfollows.stops hbound hfits hvalues hwidest
  have hgone : ((p.advance (writeString key).length).advance 1).gone (v.spell script).length v.count =
      p.gone (script.pair key (v.spell script)).length v.count := by
    rw [advance_eq_gone, advance_eq_gone, gone_gone, gone_gone, JsonTree.Script.pair, List.length_append, List.length_cons]
    exact gone_congr (by show _ = (writeString key).length + _; omega) (by omega)
  rw [fieldsFrom, skipWhitespace_of hquote (by decide), peek_of hquote, ok_bind, ensure_of rfl, ok_bind, parseString_of hquoted,
    ok_bind]
  dsimp only
  rw [ensure_of hkey, ok_bind, skipWhitespace_of hcolon (by decide), (@expect_of _ [mark ':']) hcolon, ok_bind,
    List.length_singleton, skipWhitespace_of (by rw [hvalue, hhead]; rfl) hopens.1, hread, ok_bind, hgone]
  dsimp only
  rw [skipWhitespace_of (rest_gone_of h) hfollows.isWhitespace]
  rfl

/-- The spelled elements of an array. -/
abbrev elementText (items : List JSONValue) : List UInt8 := script.join (items.map (JsonTree.spell script))

/-- The spelled fields of an object. -/
abbrev fieldText (fields : List (Scalars × JSONValue)) : List UInt8 :=
  script.join (fields.map fun f => script.pair f.1 (f.2.spell script))

theorem spell_array (items : List JSONValue) :
    (JsonTree.array items).spell script = mark '[' :: (elementText items ++ [mark ']']) := JsonTree.spell_array

theorem spell_object (fields : List (Scalars × JSONValue)) :
    (JsonTree.object fields).spell script = mark '{' :: (fieldText fields ++ [mark '}']) := JsonTree.spell_object

theorem elementsFrom_spell {vs : List JSONValue} (hback : ∀ w ∈ v :: vs, ReadsBack repair w)
    (h : p.rest = elementText (v :: vs) ++ mark ']' :: tail) (hbound : 3 * ((elementText (v :: vs)).length + 1) < bound)
    (hfits : ∀ w ∈ v :: vs, FitsAt depth w) (hvalues : allows p.maxValues (p.values + JsonTree.countItems (v :: vs)))
    (hwidest : allows p.maxArrayCount (JsonTree.widestItem (v :: vs)))
    (hwidth : allows p.maxArrayCount (elements.length + (v :: vs).length)) :
    p.elementsFrom repair bound depth elements = .ok (.array (elements ++ v :: vs),
      p.gone ((elementText (v :: vs)).length + 1) (JsonTree.countItems (v :: vs))) := by
  obtain ⟨bound, rfl⟩ : ∃ b, bound = b + 1 := ⟨bound - 1, by omega⟩
  induction vs generalizing p v elements bound with
  | nil =>
    have htext : elementText [v] = v.spell script := script.join_singleton _
    rw [htext] at h hbound ⊢
    rw [elementsFrom_step (hback v List.mem_cons_self) h (.inr (.inl rfl)) (by omega) (hfits v List.mem_cons_self) hvalues
      (allows_le hwidest (le_max_left _ _)) hwidth, closes_close (rest_gone_of h), ok_bind]
    rfl
  | cons w vs ih =>
    have htext : elementText (v :: w :: vs) = v.spell script ++ mark ',' :: elementText (w :: vs) := rfl
    rw [htext, List.append_assoc] at h
    rw [htext, List.length_append, List.length_cons] at hbound ⊢
    obtain ⟨hv, hvs⟩ := List.forall_mem_cons.mp hfits
    obtain ⟨hbackv, hback⟩ := List.forall_mem_cons.mp hback
    rw [JsonTree.countItems, ← Nat.add_assoc] at hvalues
    rw [JsonTree.widestItem] at hwidest
    rw [List.length_cons] at hwidth
    have hclose := rest_gone_of (k := v.count) h
    have hnext : ((p.gone (v.spell script).length v.count).advance 1).rest = elementText (w :: vs) ++ mark ']' :: tail :=
      (@rest_advance_of _ [mark ',']) hclose
    have hlength : (elements ++ [v]).length + (w :: vs).length ≤ elements.length + ((w :: vs).length + 1) := by
      rw [List.length_append, List.length_singleton]
      omega
    obtain ⟨bound, rfl⟩ : ∃ b, bound = b + 1 := ⟨bound - 1, by omega⟩
    rw [elementsFrom_step hbackv h (.inl rfl) (by omega) hv (allows_le hvalues (Nat.le_add_right _ _))
      (allows_le hwidest (le_max_left _ _)) (allows_le hwidth (by omega)), closes_comma hclose (by decide), ok_bind]
    dsimp only
    rw [if_neg Bool.false_ne_true, ih hback hnext hvs hvalues (allows_le hwidest (le_max_right _ _))
      (allows_le hwidth hlength) bound (by omega), List.append_assoc, advance_eq_gone, gone_gone, gone_gone]
    refine congrArg (fun q => Except.ok (JsonTree.array (elements ++ v :: w :: vs), q)) (gone_congr (by omega) ?_)
    simp only [JsonTree.countItems, Nat.zero_add]

theorem fieldsFrom_spell {fs : List (Scalars × JSONValue)} (hback : ∀ g ∈ (key, v) :: fs, ReadsBack repair g.2)
    (h : p.rest = fieldText ((key, v) :: fs) ++ mark '}' :: tail) (hbound : 3 * ((fieldText ((key, v) :: fs)).length + 1) < bound)
    (hfits : ∀ g ∈ (key, v) :: fs, FitsAt depth g.2) (hkeys : ((fields ++ (key, v) :: fs).map Prod.fst).Nodup)
    (hvalues : allows p.maxValues (p.values + JsonTree.countFields ((key, v) :: fs)))
    (hwidest : allows p.maxArrayCount (JsonTree.widestField ((key, v) :: fs))) :
    p.fieldsFrom repair bound depth fields = .ok (.object (fields ++ (key, v) :: fs),
      p.gone ((fieldText ((key, v) :: fs)).length + 1) (JsonTree.countFields ((key, v) :: fs))) := by
  obtain ⟨bound, rfl⟩ : ∃ b, bound = b + 1 := ⟨bound - 1, by omega⟩
  have hfresh : ∀ {fields fs : List (Scalars × JSONValue)} {key : Scalars} {v : JSONValue},
      ((fields ++ (key, v) :: fs).map Prod.fst).Nodup → key ∉ fields.map Prod.fst := fun hkeys hmem => by
    rw [List.map_append, List.map_cons] at hkeys
    exact (List.nodup_append.mp hkeys).2.2 _ hmem _ List.mem_cons_self rfl
  have hpair : ∀ (key : Scalars) (v : JSONValue),
      (v.spell script).length ≤ (script.pair key (v.spell script)).length := fun key v => by
    rw [JsonTree.Script.pair, List.length_append, List.length_cons]
    omega
  induction fs generalizing p key v fields bound with
  | nil =>
    have htext : fieldText [(key, v)] = script.pair key (v.spell script) := script.join_singleton _
    have := hpair key v
    rw [htext] at h hbound ⊢
    rw [fieldsFrom_step (v := v) (hback _ List.mem_cons_self) h (.inr (.inr rfl)) (by omega) (hfits _ List.mem_cons_self) hvalues
      (allows_le hwidest (le_max_left _ _)) (hfresh hkeys), closes_close (rest_gone_of h), ok_bind]
    rfl
  | cons g fs ih =>
    obtain ⟨key', w⟩ := g
    have htext : fieldText ((key, v) :: (key', w) :: fs) =
      script.pair key (v.spell script) ++ mark ',' :: fieldText ((key', w) :: fs) := rfl
    have := hpair key v
    rw [htext, List.append_assoc] at h
    rw [htext, List.length_append, List.length_cons] at hbound ⊢
    obtain ⟨hv, hvs⟩ := List.forall_mem_cons.mp hfits
    obtain ⟨hbackv, hback⟩ := List.forall_mem_cons.mp hback
    rw [JsonTree.countFields, ← Nat.add_assoc] at hvalues
    rw [JsonTree.widestField] at hwidest
    have hclose := rest_gone_of (k := v.count) h
    have hnext : ((p.gone (script.pair key (v.spell script)).length v.count).advance 1).rest =
      fieldText ((key', w) :: fs) ++ mark '}' :: tail := (@rest_advance_of _ [mark ',']) hclose
    have hkeys' : ((fields ++ [(key, v)] ++ (key', w) :: fs).map Prod.fst).Nodup := by
      rw [List.append_assoc]
      exact hkeys
    obtain ⟨bound, rfl⟩ : ∃ b, bound = b + 1 := ⟨bound - 1, by omega⟩
    rw [fieldsFrom_step (v := v) hbackv h (.inl rfl) (by omega) hv (allows_le hvalues (Nat.le_add_right _ _))
      (allows_le hwidest (le_max_left _ _)) (hfresh hkeys), closes_comma hclose (by decide), ok_bind]
    dsimp only
    rw [if_neg Bool.false_ne_true, ih hback hnext hvs hkeys' hvalues (allows_le hwidest (le_max_right _ _)) bound
      (by omega), List.append_assoc, advance_eq_gone, gone_gone, gone_gone]
    refine congrArg (fun q => Except.ok (JsonTree.object (fields ++ (key, v) :: (key', w) :: fs), q))
      (gone_congr (by omega) ?_)
    simp only [JsonTree.countFields, Nat.zero_add]

/-- What is left of a value after its first byte is looked at. -/
theorem parseValue_of (h : p.rest = byte :: tail) (hvalues : allows p.maxValues (p.values + 1)) :
    p.parseValue repair (bound + 1) depth =
      let p := p.gone 0 1
      if byte = mark '{' then p.parseObject repair bound (depth + 1)
      else if byte = mark '[' then p.parseArray repair bound (depth + 1)
      else if byte = mark '"' then p.parseString repair >>= fun r => .ok (.string r.1, r.2)
      else if byte = mark 't' then p.expect ("true".toList.map mark) >>= fun p => .ok (.bool true, p)
      else if byte = mark 'f' then p.expect ("false".toList.map mark) >>= fun p => .ok (.bool false, p)
      else if byte = mark 'n' then p.expect ("null".toList.map mark) >>= fun p => .ok (.null, p)
      else if byte = mark '-' ∨ isDigit byte then p.parseInteger >>= fun r => .ok (.number r.1, r.2)
      else raise (.syntaxError p.index) := by
  have hrest : (p.gone 0 1).rest = byte :: tail := h
  rw [parseValue, ensure_of hvalues, ok_bind]
  show (p.gone 0 1).peek >>= _ = _
  rw [peek_of hrest, ok_bind]
  rfl

/-- None of the marks that a value other than a number opens with. -/
theorem not_mark_of_number (h : byte = mark '-' ∨ isDigit byte = true) :
    ∀ c ∈ ['{', '[', '"', 't', 'f', 'n'], byte ≠ mark c := by
  rintro c hc rfl
  simp only [List.mem_cons, List.not_mem_nil, or_false] at hc
  rcases hc with rfl | rfl | rfl | rfl | rfl | rfl <;> exact absurd h (by decide)

theorem readsBack_number (number : Int) : ReadsBack repair (.number number) := by
  intro p tail bound depth h hstops hbound hfits hvalues _
  obtain ⟨byte, text, hcons, hfirst⟩ := exists_head_decimal number
  have hhead : p.rest = byte :: (text ++ tail) := by
    rw [h]
    exact congrArg (· ++ tail) hcons
  have hne := not_mark_of_number hfirst
  obtain ⟨bound, rfl⟩ : ∃ b, bound = b + 1 := ⟨bound - 1, by
    have hlength : (JsonTree.spell script (.number number)).length = (byte :: text).length := congrArg List.length hcons
    rw [List.length_cons] at hlength
    omega⟩
  rw [parseValue_of hhead hvalues]
  dsimp only
  rw [if_neg (hne '{' (by decide)), if_neg (hne '[' (by decide)), if_neg (hne '"' (by decide)), if_neg (hne 't' (by decide)),
    if_neg (hne 'f' (by decide)), if_neg (hne 'n' (by decide)), if_pos hfirst,
    parseInteger_of (p := p.gone 0 1) h hstops hfits.number, ok_bind]
  dsimp only
  rw [advance_eq_gone, gone_gone, Nat.zero_add, Nat.add_zero]
  rfl

theorem readsBack_string (text : Scalars) : ReadsBack repair (.string text) := by
  intro p tail bound depth h _ hbound _ hvalues _
  have hhead : p.rest = mark '"' :: ((utf8 text).flatMap escaped ++ [mark '"'] ++ tail) := h
  obtain ⟨bound, rfl⟩ : ∃ b, bound = b + 1 := ⟨bound - 1, by
    have hlength : (JsonTree.spell script (.string text)).length = ((utf8 text).flatMap escaped ++ [mark '"']).length + 1 := rfl
    omega⟩
  rw [parseValue_of hhead hvalues]
  dsimp only
  rw [if_neg (by decide), if_neg (by decide), if_pos rfl, parseString_of (p := p.gone 0 1) h, ok_bind]
  dsimp only
  rw [advance_eq_gone, gone_gone, Nat.zero_add, Nat.add_zero]
  rfl

theorem readsBack_array {items : List JSONValue} (hback : ∀ v ∈ items, ReadsBack repair v) :
    ReadsBack repair (.array items) := by
  intro p tail bound depth h _ hbound hfits hvalues hwidest
  rw [spell_array] at h hbound ⊢
  have hhead : p.rest = mark '[' :: (elementText items ++ mark ']' :: tail) := by
    rw [h]
    exact congrArg (mark '[' :: ·) (List.append_assoc ..)
  rw [List.length_cons, List.length_append, List.length_singleton] at hbound ⊢
  obtain ⟨bound, rfl⟩ : ∃ b, bound = b + 2 := ⟨bound - 2, by omega⟩
  rw [JsonTree.count, ← Nat.add_assoc] at hvalues
  rw [JsonTree.widest] at hwidest
  have hdepth : depth + 1 ≤ maxDepth := by
    by_contra hnot
    unfold FitsAt at hfits
    rw [Nat.sub_eq_zero_of_le (Nat.le_of_not_lt hnot)] at hfits
    exact hfits.1
  have hopened : ((p.gone 0 1).advance 1).rest = elementText items ++ mark ']' :: tail :=
    (@rest_advance_of (p.gone 0 1) [mark '[']) hhead
  rw [parseValue_of hhead (allows_le hvalues (Nat.le_add_right _ _))]
  dsimp only
  rw [if_neg (by decide), if_pos rfl, parseArray, ensure_of hdepth, ok_bind]
  cases items with
  | nil =>
    have hclosed : ((p.gone 0 1).advance 1).rest = mark ']' :: tail := hopened
    rw [skipWhitespace_of hclosed (by decide)]
    dsimp only
    rw [peek_of hclosed, ok_bind, if_pos rfl]
    rfl
  | cons v vs =>
    obtain ⟨first, text, htext, hopens⟩ := exists_head_spell v
    have hfirst : ((p.gone 0 1).advance 1).rest = first :: (text ++ (vs.map (JsonTree.spell script)).flatMap (mark ',' :: ·) ++
        mark ']' :: tail) := by
      rw [hopened]
      show v.spell script ++ _ ++ _ = _
      rw [htext]
      rfl
    rw [skipWhitespace_of hfirst hopens.1]
    dsimp only
    rw [peek_of hfirst, ok_bind, if_neg hopens.2.1,
      elementsFrom_spell hback hopened (by omega) ((fitsAt_array hdepth).mp hfits) hvalues
        (allows_le hwidest (le_max_right _ _)) (allows_le hwidest (by rw [List.length_nil, Nat.zero_add]; exact le_max_left _ _)),
      List.nil_append, advance_eq_gone, gone_gone, gone_gone]
    refine congrArg (fun q => Except.ok (JsonTree.array (v :: vs), q)) (gone_congr (by omega) ?_)
    rw [JsonTree.count, Nat.zero_add]

theorem readsBack_object {fields : List (Scalars × JSONValue)} (hback : ∀ f ∈ fields, ReadsBack repair f.2) :
    ReadsBack repair (.object fields) := by
  intro p tail bound depth h _ hbound hfits hvalues hwidest
  rw [spell_object] at h hbound ⊢
  have hhead : p.rest = mark '{' :: (fieldText fields ++ mark '}' :: tail) := by
    rw [h]
    exact congrArg (mark '{' :: ·) (List.append_assoc ..)
  rw [List.length_cons, List.length_append, List.length_singleton] at hbound ⊢
  obtain ⟨bound, rfl⟩ : ∃ b, bound = b + 2 := ⟨bound - 2, by omega⟩
  rw [JsonTree.count, ← Nat.add_assoc] at hvalues
  rw [JsonTree.widest] at hwidest
  have hdepth : depth + 1 ≤ maxDepth := by
    by_contra hnot
    unfold FitsAt at hfits
    rw [Nat.sub_eq_zero_of_le (Nat.le_of_not_lt hnot)] at hfits
    exact hfits.1
  have hopened : ((p.gone 0 1).advance 1).rest = fieldText fields ++ mark '}' :: tail :=
    (@rest_advance_of (p.gone 0 1) [mark '{']) hhead
  rw [parseValue_of hhead (allows_le hvalues (Nat.le_add_right _ _))]
  dsimp only
  rw [if_pos rfl, parseObject, ensure_of hdepth, ok_bind]
  obtain ⟨hkeys, hfields⟩ := (fitsAt_object hdepth).mp hfits
  cases fields with
  | nil =>
    have hclosed : ((p.gone 0 1).advance 1).rest = mark '}' :: tail := hopened
    rw [skipWhitespace_of hclosed (by decide)]
    dsimp only
    rw [peek_of hclosed, ok_bind, if_pos rfl]
    rfl
  | cons f fs =>
    obtain ⟨key, v⟩ := f
    have hfirst : ∃ text, ((p.gone 0 1).advance 1).rest = mark '"' :: text := ⟨_, hopened⟩
    obtain ⟨text, hfirst⟩ := hfirst
    rw [skipWhitespace_of hfirst (by decide)]
    dsimp only
    rw [peek_of hfirst, ok_bind, if_neg (by decide),
      fieldsFrom_spell hback hopened (by omega) hfields hkeys hvalues hwidest, List.nil_append, advance_eq_gone, gone_gone,
      gone_gone]
    refine congrArg (fun q => Except.ok (JsonTree.object ((key, v) :: fs), q)) (gone_congr (by omega) ?_)
    rw [JsonTree.count, Nat.zero_add]

theorem readsBack (v : JSONValue) : ReadsBack repair v := by
  induction v using JsonTree.inductionOn with
  | null =>
    intro p tail bound depth h _ hbound _ hvalues _
    obtain ⟨bound, rfl⟩ : ∃ b, bound = b + 1 := ⟨bound - 1, by
      have hlength : (JsonTree.spell script .null).length = 4 := rfl
      omega⟩
    rw [(@parseValue_of _ _ (mark 'n')) h hvalues]
    dsimp only
    rw [if_neg (by decide), if_neg (by decide), if_neg (by decide), if_neg (by decide), if_neg (by decide), if_pos rfl,
      (@expect_of (p.gone 0 1) ("null".toList.map mark)) h, ok_bind]
    rfl
  | bool b =>
    intro p tail bound depth h _ hbound _ hvalues _
    cases b with
    | true =>
      obtain ⟨bound, rfl⟩ : ∃ b, bound = b + 1 := ⟨bound - 1, by
        have hlength : (JsonTree.spell script (.bool true)).length = 4 := rfl
        omega⟩
      rw [(@parseValue_of _ _ (mark 't')) h hvalues]
      dsimp only
      rw [if_neg (by decide), if_neg (by decide), if_neg (by decide), if_pos rfl, (@expect_of (p.gone 0 1) ("true".toList.map mark)) h, ok_bind]
      rfl
    | false =>
      obtain ⟨bound, rfl⟩ : ∃ b, bound = b + 1 := ⟨bound - 1, by
        have hlength : (JsonTree.spell script (.bool false)).length = 5 := rfl
        omega⟩
      rw [(@parseValue_of _ _ (mark 'f')) h hvalues]
      dsimp only
      rw [if_neg (by decide), if_neg (by decide), if_neg (by decide), if_neg (by decide), if_pos rfl,
        (@expect_of (p.gone 0 1) ("false".toList.map mark)) h, ok_bind]
      rfl
  | number n => exact readsBack_number n
  | string text => exact readsBack_string text
  | array items ih => exact readsBack_array ih
  | object fields ih => exact readsBack_object ih

end Parts

end Parser

end CanonicalJSON

end Opensteer.Passwords
