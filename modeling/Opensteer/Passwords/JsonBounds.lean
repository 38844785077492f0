import Opensteer.Passwords.Json

/-!
# The parser stops inside its bytes

No call of the parser reads outside of the bytes, overflows an integer or runs out of its bound: each ends
with a result or throws (`Ends`), and moves on through the bytes (`Parser.Moved`). What a value is parsed to
fits what the encoder takes (`ends_value`).
-/

namespace Opensteer.Passwords

variable {α β : Type} {P Q : α → Prop} {R : β → Prop}

/-- A call that throws, or whose result is as stated. -/
def Ends (Q : α → Prop) : Outcome α → Prop
  | .ok a => Q a
  | .error (.thrown _) => True
  | .error _ => False

theorem Ends.mono {x : Outcome α} (h : Ends P x) (hPQ : ∀ a, P a → Q a) : Ends Q x := by
  match x, h with
  | .ok a, h => exact hPQ a h
  | .error (.thrown _), _ => trivial

theorem Ends.bind {x : Outcome α} {f : α → Outcome β} (h : Ends P x) (hf : ∀ a, P a → Ends R (f a)) : Ends R (x >>= f) := by
  match x, h with
  | .ok a, h => exact hf a h
  | .error (.thrown _), _ => trivial

theorem ends_raise (error : JSONError) : Ends Q (raise error) := trivial

theorem ends_ensure (condition : Prop) [Decidable condition] (error : JSONError) :
    Ends (fun _ => condition) (ensure condition error) := by
  unfold ensure
  split
  · assumption
  · trivial

/-- What comes after a `guard`. -/
theorem Ends.ensure {condition : Prop} [Decidable condition] {error : JSONError} {f : Unit → Outcome β}
    (hf : condition → Ends R (f ())) : Ends R (Passwords.ensure condition error >>= f) :=
  (ends_ensure condition error).bind fun _ => hf

theorem ends_int64 {n : Int} (h : -2 ^ 63 ≤ n) (h' : n < 2 ^ 63) : Ends (fun m => m = n) (int64 n) := by
  rw [int64, if_pos ⟨h, h'⟩]
  rfl

namespace CanonicalJSON

/-- An integer that JavaScript reads exactly. -/
def Safe (number : Int) : Prop := -maxSafeInteger ≤ number ∧ number ≤ maxSafeInteger

instance : DecidablePred Safe := fun _ => inferInstanceAs (Decidable (_ ∧ _))

namespace Parser

variable {p q r : Parser} {n m : Nat} {repair : List UInt8 → Scalars}

/-- The parser has gone over at least so many bytes, and not past the end. -/
structure Moved (n : Nat) (p q : Parser) : Prop where
  bytes : q.bytes = p.bytes
  by_le : p.index + n ≤ q.index
  within : q.index ≤ p.bytes.length

theorem Moved.trans (h : Moved n p q) (h' : Moved m q r) : Moved (n + m) p r where
  bytes := h'.bytes.trans h.bytes
  by_le := by
    have := h.by_le
    have := h'.by_le
    omega
  within := h.bytes ▸ h'.within

theorem Moved.le (h : Moved n p q) (hm : m ≤ n) : Moved m p q :=
  ⟨h.bytes, (Nat.add_le_add_left hm _).trans h.by_le, h.within⟩

/-- Less is left than before. -/
theorem Moved.left (h : Moved n p q) : q.bytes.length - q.index + n ≤ p.bytes.length - p.index ∧
    q.index ≤ q.bytes.length := by
  have := h.by_le
  have := h.within
  rw [h.bytes]
  omega

theorem length_rest (p : Parser) : p.rest.length = p.bytes.length - p.index := List.length_drop ..

theorem moved_advance (h : p.index + n ≤ p.bytes.length) : Moved n p (p.advance n) := ⟨rfl, le_rfl, h⟩

/-- A loop that goes over bytes of a kind. -/
theorem moved_while (h : p.index ≤ p.bytes.length) (kind : UInt8 → Bool) :
    Moved 0 p (p.advance (p.rest.takeWhile kind).length) := by
  have hle := (List.takeWhile_sublist (p := kind) (l := p.rest)).length_le
  rw [length_rest] at hle
  exact (moved_advance (by omega)).le (Nat.zero_le _)

theorem moved_skipWhitespace (h : p.index ≤ p.bytes.length) : Moved 0 p p.skipWhitespace := moved_while h _

theorem ends_byte {i : Nat} (h : i < p.bytes.length) : Ends (fun _ => True) (p.byte i) := by
  rw [byte, List.getElem?_eq_getElem h]
  trivial

theorem ends_peek (p : Parser) : Ends (fun _ => p.index < p.bytes.length) p.peek :=
  .ensure fun h => (ends_byte h).mono fun _ _ => h

theorem ends_expect (literals : List UInt8) (h : p.index ≤ p.bytes.length) :
    Ends (Moved literals.length p) (p.expect literals) := by
  induction literals generalizing p with
  | nil => exact ⟨rfl, le_rfl, h⟩
  | cons literal literals ih =>
    rw [expect]
    refine .ensure fun hindex => (ends_byte hindex).bind fun byte _ => .ensure fun _ => ?_
    refine (ih (p := p.advance 1) hindex).mono fun q hq => ?_
    rw [List.length_cons, Nat.add_comm]
    exact (moved_advance hindex).trans hq

/-! ## Integers -/

theorem isDigit_iff {byte : UInt8} : isDigit byte = true ↔ 48 ≤ byte.toNat ∧ byte.toNat ≤ 57 := by
  rw [isDigit, Bool.and_eq_true, decide_eq_true_eq, decide_eq_true_eq, UInt8.le_iff_toNat_le, UInt8.le_iff_toNat_le]
  exact Iff.rfl

theorem toNat_digit {byte : UInt8} (h : isDigit byte = true) : (byte - mark '0').toNat < 10 := by
  obtain ⟨hle, hle'⟩ := isDigit_iff.mp h
  have hmark : mark '0' ≤ byte := UInt8.le_iff_toNat_le.mpr hle
  rw [UInt8.toNat_sub_of_le _ _ hmark]
  show byte.toNat - 48 < 10
  omega

/-- Digits of which there are few enough do not overflow. -/
theorem ends_accumulate {digits : List UInt8} {value : Int} {k : Nat} (hdigits : ∀ digit ∈ digits, isDigit digit = true)
    (hnonneg : 0 ≤ value) (hvalue : value < 10 ^ k) (hk : k + digits.length ≤ 18) :
    Ends (0 ≤ ·) (accumulate digits value) := by
  induction digits generalizing value k with
  | nil => exact hnonneg
  | cons digit digits ih =>
    obtain ⟨hdigit, hdigits⟩ := List.forall_mem_cons.mp hdigits
    have hten := toNat_digit hdigit
    rw [List.length_cons] at hk
    have hpow : (10 : Int) ^ (k + 1) ≤ 10 ^ 18 := pow_le_pow_right₀ (by decide) (by omega)
    rw [accumulate]
    refine (ends_int64 (by omega) (by omega)).bind ?_
    rintro product rfl
    refine (ends_int64 (by omega) (by omega)).bind ?_
    rintro value' rfl
    exact ih hdigits (by omega) (k := k + 1) (by omega) (by omega)

theorem ends_parseInteger (h : p.index < p.bytes.length) :
    Ends (fun r => Moved 1 p r.2 ∧ Safe r.1) p.parseInteger := by
  unfold parseInteger
  refine (ends_byte h).bind fun first _ => ?_
  dsimp only
  generalize hsigned : (if first = mark '-' then p.advance 1 else p) = s
  have hmoved : Moved 0 p s := by
    rw [← hsigned]
    split
    · exact (moved_advance h).le (Nat.zero_le _)
    · exact ⟨rfl, le_rfl, h.le⟩
  generalize hdigits : s.rest.takeWhile isDigit = digits
  have hall : ∀ digit ∈ digits, isDigit digit = true := fun digit hdigit => List.mem_takeWhile_imp (hdigits ▸ hdigit)
  have hlength : s.index + digits.length ≤ s.bytes.length := by
    have hle := (List.takeWhile_sublist (p := isDigit) (l := s.rest)).length_le
    rw [length_rest, hdigits] at hle
    have := hmoved.left
    omega
  refine .ensure fun hne => .ensure fun _ => .ensure fun _ => .ensure fun hsixteen => ?_
  have hone : 1 ≤ digits.length := List.length_pos_of_ne_nil hne
  have hend : Moved 1 p (s.advance digits.length) := (hmoved.trans (moved_advance hlength)).le (by omega)
  refine (ends_accumulate (k := 0) hall le_rfl (by decide) (by omega)).bind fun value hvalue => .ensure fun hsafe => ?_
  have hmax : (0 : Int) ≤ maxSafeInteger := by decide
  split
  · exact .ensure fun _ => ⟨hend, by show -maxSafeInteger ≤ -value ∧ -value ≤ maxSafeInteger; omega⟩
  · exact ⟨hend, by show -maxSafeInteger ≤ value ∧ value ≤ maxSafeInteger; omega⟩

/-! ## Strings -/

theorem ends_parseHex4 (p : Parser) : Ends (fun r => Moved 4 p r.2) p.parseHex4 := by
  refine .ensure fun h => ?_
  have hslice : Ends (fun _ => True) (p.slice 4) := by
    rw [slice, if_pos h]
    trivial
  refine hslice.bind fun digits _ => ?_
  split
  · exact moved_advance h
  · exact ends_raise _

theorem ends_parseLowSurrogate (first : UInt32) (p : Parser) :
    Ends (fun r => Moved 0 p r.2) (p.parseLowSurrogate first) := by
  refine .ensure fun h => (ends_byte (by omega)).bind fun backslash _ => .ensure fun _ => ?_
  refine (ends_byte (by omega)).bind fun escape _ => .ensure fun _ => ?_
  refine (ends_parseHex4 _).bind fun r hr => .ensure fun _ => ?_
  dsimp only
  split
  · exact ((moved_advance h).trans hr).le (Nat.zero_le _)
  · exact ends_raise _

theorem ends_parseUnicodeEscape (p : Parser) : Ends (fun r => Moved 0 p r.2) p.parseUnicodeEscape := by
  refine (ends_parseHex4 p).bind fun r hr => ?_
  dsimp only
  split
  · exact (ends_parseLowSurrogate r.1 r.2).mono fun s hs => (hr.trans hs).le (Nat.zero_le _)
  · split
    · exact hr.le (Nat.zero_le _)
    · exact ends_raise _

theorem ends_parseEscape (p : Parser) : Ends (fun r => Moved 0 p r.2) p.parseEscape := by
  refine .ensure fun h => (ends_byte h).bind fun escape _ => ?_
  dsimp only
  split
  · refine (ends_parseUnicodeEscape _).bind fun r hr => ?_
    exact ((moved_advance h).trans hr).le (Nat.zero_le _)
  · split
    · exact (moved_advance h).le (Nat.zero_le _)
    · exact ends_raise _

theorem ends_stringFrom {start bound : Nat} (out : List UInt8) (hbound : p.bytes.length - p.index < bound)
    (h : p.index ≤ p.bytes.length) : Ends (fun r => Moved 0 p r.2) (p.stringFrom repair start bound out) := by
  induction bound generalizing p out with
  | zero => omega
  | succ bound ih =>
    refine .ensure fun hindex => (ends_byte hindex).bind fun byte _ => ?_
    have hmoved : Moved 1 p (p.advance 1) := moved_advance hindex
    have hnext : ∀ q, Moved 0 (p.advance 1) q → ∀ out,
        Ends (fun r => Moved 0 p r.2) (q.stringFrom repair start bound out) := fun q hq out => by
      have hstep := hmoved.trans hq
      have := hstep.left
      exact (ih out (by omega) (by omega)).mono fun r hr => (hstep.trans hr).le (Nat.zero_le _)
    dsimp only
    split
    · exact hmoved.le (Nat.zero_le _)
    · split
      · exact (ends_parseEscape _).bind fun r hr => hnext r.2 hr _
      · split
        · exact ends_raise _
        · exact hnext _ ⟨rfl, le_rfl, hindex⟩ _

theorem ends_parseString (h : p.index < p.bytes.length) : Ends (fun r => Moved 1 p r.2) (p.parseString repair) := by
  have hmoved : Moved 1 p (p.advance 1) := moved_advance h
  refine (ends_stringFrom (p := p.advance 1) [] ?_ h).mono fun r hr => hmoved.trans hr
  show p.bytes.length - (p.index + 1) < p.bytes.length - p.index
  omega

/-! ## Values -/

theorem ends_closes {close : UInt8} (p : Parser) : Ends (fun r => Moved 1 p r.2) (p.closes close) := by
  refine (ends_peek p).bind fun next h => ?_
  dsimp only
  split
  · exact moved_advance h
  · exact .ensure fun _ => moved_advance h

/-- A value that fits at a depth. -/
abbrev FitsAt (depth : Nat) (value : JSONValue) : Prop := value.Fits Safe False (maxDepth - depth)

/-- How a call of a bound ends that parses a value at a depth. -/
def Parses (p : Parser) (depth : Nat) (r : JSONValue × Parser) : Prop := Moved 1 p r.2 ∧ FitsAt depth r.1

/-- How the calls of a bound end. Each value is opened by a byte, which makes up for the three calls that it
takes. -/
structure EndsAt (repair : List UInt8 → Scalars) (bound : Nat) : Prop where
  value {p : Parser} (depth : Nat) : p.index ≤ p.bytes.length → 3 * (p.bytes.length - p.index) < bound →
    Ends (Parses p depth) (p.parseValue repair bound depth)
  object {p : Parser} (depth : Nat) : p.index < p.bytes.length → 3 * (p.bytes.length - p.index) ≤ bound →
    Ends (Parses p depth) (p.parseObject repair bound (depth + 1))
  fields {p : Parser} (depth : Nat) {fields : List (Scalars × JSONValue)} : depth < maxDepth → p.index ≤ p.bytes.length →
    3 * (p.bytes.length - p.index) + 2 ≤ bound → FitsAt depth (.object fields) →
    Ends (fun r => Moved 0 p r.2 ∧ FitsAt depth r.1) (p.fieldsFrom repair bound (depth + 1) fields)
  array {p : Parser} (depth : Nat) : p.index < p.bytes.length → 3 * (p.bytes.length - p.index) ≤ bound →
    Ends (Parses p depth) (p.parseArray repair bound (depth + 1))
  elements {p : Parser} (depth : Nat) {elements : List JSONValue} : depth < maxDepth → p.index ≤ p.bytes.length →
    3 * (p.bytes.length - p.index) + 2 ≤ bound → FitsAt depth (.array elements) →
    Ends (fun r => Moved 0 p r.2 ∧ FitsAt depth r.1) (p.elementsFrom repair bound (depth + 1) elements)

variable {bound depth : Nat}

theorem fitsAt_array (hdepth : depth < maxDepth) {elements : List JSONValue} :
    FitsAt depth (.array elements) ↔ ∀ value ∈ elements, FitsAt (depth + 1) value := by
  unfold FitsAt
  rw [show maxDepth - depth = maxDepth - (depth + 1) + 1 by omega]
  exact Iff.rfl

theorem fitsAt_object (hdepth : depth < maxDepth) {fields : List (Scalars × JSONValue)} :
    FitsAt depth (.object fields) ↔ (fields.map Prod.fst).Nodup ∧ ∀ f ∈ fields, FitsAt (depth + 1) f.2 := by
  unfold FitsAt
  rw [show maxDepth - depth = maxDepth - (depth + 1) + 1 by omega]
  exact Iff.rfl

theorem fitsAt_string (text : Scalars) : FitsAt depth (.string text) := by
  unfold FitsAt
  cases maxDepth - depth <;> trivial

theorem fitsAt_bool (flag : Bool) : FitsAt depth (.bool flag) := by
  unfold FitsAt
  cases maxDepth - depth <;> trivial

theorem fitsAt_null : FitsAt depth .null := by
  unfold FitsAt
  cases maxDepth - depth <;> trivial

theorem fitsAt_number {number : Int} (h : Safe number) : FitsAt depth (.number number) := by
  unfold FitsAt
  cases maxDepth - depth <;> exact h

namespace EndsAt

variable (h : EndsAt repair bound)
include h

theorem value_succ (depth : Nat) (hindex : p.index ≤ p.bytes.length) (hbound : 3 * (p.bytes.length - p.index) < bound + 1) :
    Ends (Parses p depth) (p.parseValue repair (bound + 1) depth) := by
  rw [parseValue]
  refine .ensure fun _ => ?_
  dsimp only
  generalize hs : ({ p with values := p.values + 1 } : Parser) = s
  have hmoved : Moved 0 p s := hs ▸ ⟨rfl, le_rfl, hindex⟩
  refine (ends_peek s).bind fun first hlt => ?_
  have hleft := hmoved.left
  have hstep : ∀ {n : Nat} {q : Parser}, 1 ≤ n → Moved n s q → Moved 1 p q := fun hn hq => (hmoved.trans hq).le (by omega)
  split
  · exact (h.object depth hlt (by omega)).mono fun r hr => ⟨hstep le_rfl hr.1, hr.2⟩
  · split
    · exact (h.array depth hlt (by omega)).mono fun r hr => ⟨hstep le_rfl hr.1, hr.2⟩
    · split
      · exact (ends_parseString hlt).bind fun r hr => ⟨hstep le_rfl hr, fitsAt_string _⟩
      · split
        · exact (ends_expect _ hlt.le).bind fun q hq => ⟨hstep (by decide) hq, fitsAt_bool _⟩
        · split
          · exact (ends_expect _ hlt.le).bind fun q hq => ⟨hstep (by decide) hq, fitsAt_bool _⟩
          · split
            · exact (ends_expect _ hlt.le).bind fun q hq => ⟨hstep (by decide) hq, fitsAt_null⟩
            · split
              · exact (ends_parseInteger hlt).bind fun r hr => ⟨hstep le_rfl hr.1, fitsAt_number hr.2⟩
              · exact ends_raise _

theorem object_succ (depth : Nat) (hindex : p.index < p.bytes.length)
    (hbound : 3 * (p.bytes.length - p.index) ≤ bound + 1) :
    Ends (Parses p depth) (p.parseObject repair (bound + 1) (depth + 1)) := by
  rw [parseObject]
  refine .ensure fun hdepth => ?_
  have hopened : Moved 1 p (p.advance 1).skipWhitespace :=
    (moved_advance hindex).trans (moved_skipWhitespace (p := p.advance 1) hindex)
  have hleft := hopened.left
  refine (ends_peek _).bind fun next hlt => ?_
  split
  · exact ⟨(hopened.trans (moved_advance hlt)).le (by omega),
      (fitsAt_object hdepth).mpr ⟨List.nodup_nil, fun _ hf => by cases hf⟩⟩
  · refine (h.fields depth hdepth hleft.2 (by omega) ?_).mono fun r hr => ⟨hopened.trans hr.1, hr.2⟩
    exact (fitsAt_object hdepth).mpr ⟨List.nodup_nil, fun _ hf => by cases hf⟩

theorem array_succ (depth : Nat) (hindex : p.index < p.bytes.length)
    (hbound : 3 * (p.bytes.length - p.index) ≤ bound + 1) :
    Ends (Parses p depth) (p.parseArray repair (bound + 1) (depth + 1)) := by
  rw [parseArray]
  refine .ensure fun hdepth => ?_
  have hopened : Moved 1 p (p.advance 1).skipWhitespace :=
    (moved_advance hindex).trans (moved_skipWhitespace (p := p.advance 1) hindex)
  have hleft := hopened.left
  refine (ends_peek _).bind fun next hlt => ?_
  split
  · exact ⟨(hopened.trans (moved_advance hlt)).le (by omega), (fitsAt_array hdepth).mpr fun _ hv => by cases hv⟩
  · refine (h.elements depth hdepth hleft.2 (by omega) ?_).mono fun r hr => ⟨hopened.trans hr.1, hr.2⟩
    exact (fitsAt_array hdepth).mpr fun _ hv => by cases hv

theorem fields_succ (depth : Nat) {fields : List (Scalars × JSONValue)} (hdepth : depth < maxDepth)
    (hindex : p.index ≤ p.bytes.length) (hbound : 3 * (p.bytes.length - p.index) + 2 ≤ bound + 1)
    (hfits : FitsAt depth (.object fields)) :
    Ends (fun r => Moved 0 p r.2 ∧ FitsAt depth r.1) (p.fieldsFrom repair (bound + 1) (depth + 1) fields) := by
  rw [fieldsFrom]
  have hspace := moved_skipWhitespace hindex
  refine (ends_peek _).bind fun next hlt => .ensure fun _ => (ends_parseString hlt).bind fun key hkey => ?_
  replace hkey := hspace.trans hkey
  refine .ensure fun hfresh => ?_
  have hkeyspace := hkey.trans (moved_skipWhitespace hkey.left.2)
  refine (ends_expect _ hkeyspace.left.2).bind fun q hq => ?_
  replace hq := hkeyspace.trans hq
  have hvaluespace := hq.trans (moved_skipWhitespace hq.left.2)
  have hleft := hvaluespace.left
  refine (h.value (depth + 1) hleft.2 (by omega)).bind fun value hvalue => ?_
  have hclosespace := (hvaluespace.trans hvalue.1).trans (moved_skipWhitespace (hvaluespace.trans hvalue.1).left.2)
  refine (ends_closes _).bind fun closed hclosed => ?_
  replace hclosed := hclosespace.trans hclosed
  have hnext : FitsAt depth (.object (fields ++ [(key.1, value.1)])) := by
    rw [fitsAt_object hdepth] at hfits ⊢
    refine ⟨?_, List.forall_mem_append.mpr ⟨hfits.2, List.forall_mem_singleton.mpr hvalue.2⟩⟩
    rw [List.map_append]
    refine hfits.1.append (List.nodup_singleton _) ?_
    exact fun k hk hk' => hfresh (List.mem_singleton.mp hk' ▸ hk)
  dsimp only
  split
  · exact ⟨hclosed.le (Nat.zero_le _), hnext⟩
  · have hleft := hclosed.left
    exact (h.fields depth hdepth hleft.2 (by omega) hnext).mono fun r hr => ⟨(hclosed.trans hr.1).le (Nat.zero_le _), hr.2⟩

theorem elements_succ (depth : Nat) {elements : List JSONValue} (hdepth : depth < maxDepth)
    (hindex : p.index ≤ p.bytes.length) (hbound : 3 * (p.bytes.length - p.index) + 2 ≤ bound + 1)
    (hfits : FitsAt depth (.array elements)) :
    Ends (fun r => Moved 0 p r.2 ∧ FitsAt depth r.1) (p.elementsFrom repair (bound + 1) (depth + 1) elements) := by
  rw [elementsFrom]
  have hspace := moved_skipWhitespace hindex
  have hleft := hspace.left
  refine (h.value (depth + 1) hleft.2 (by omega)).bind fun value hvalue => .ensure fun _ => ?_
  have hclosespace := (hspace.trans hvalue.1).trans (moved_skipWhitespace (hspace.trans hvalue.1).left.2)
  refine (ends_closes _).bind fun closed hclosed => ?_
  replace hclosed := hclosespace.trans hclosed
  have hnext : FitsAt depth (.array (elements ++ [value.1])) := by
    rw [fitsAt_array hdepth] at hfits ⊢
    exact List.forall_mem_append.mpr ⟨hfits, List.forall_mem_singleton.mpr hvalue.2⟩
  dsimp only
  split
  · exact ⟨hclosed.le (Nat.zero_le _), hnext⟩
  · have hleft := hclosed.left
    exact (h.elements depth hdepth hleft.2 (by omega) hnext).mono fun r hr => ⟨(hclosed.trans hr.1).le (Nat.zero_le _), hr.2⟩

end EndsAt

theorem endsAt (repair : List UInt8 → Scalars) (bound : Nat) : EndsAt repair bound := by
  induction bound with
  | zero => exact ⟨fun _ _ _ => by omega, fun _ _ _ => by omega, fun _ _ _ _ _ => by omega, fun _ _ _ => by omega,
      fun _ _ _ _ _ => by omega⟩
  | succ bound ih => exact ⟨ih.value_succ, ih.object_succ, ih.fields_succ, ih.array_succ, ih.elements_succ⟩

end Parser

variable {repair : List UInt8 → Scalars}

/-- Every text is parsed to a value that can be encoded, or throws. -/
theorem ends_parse (data : List UInt8) (maxArrayCount maxValues : Option Nat) :
    Ends (JsonTree.Fits Safe False maxDepth) (parse repair data maxArrayCount maxValues) := by
  refine .ensure fun _ => ?_
  have hspace := Parser.moved_skipWhitespace (p := ⟨data, maxArrayCount, maxValues, 0, 0⟩) (Nat.zero_le _)
  have hleft := hspace.left
  refine ((Parser.endsAt repair _).value 0 hleft.2 ?_).bind fun r hr => .ensure fun _ => hr.2
  have := hspace.bytes
  simp only [hspace.bytes] at hleft ⊢
  omega

end CanonicalJSON

end Opensteer.Passwords
