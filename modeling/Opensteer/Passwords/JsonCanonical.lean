import Mathlib.Data.Bool.AllAny
import Opensteer.Passwords.JsonRoundTrip

/-!
# The canonical text of a value

Of a value that fits, `encode` is the text of the value with its fields in order (`encode_of_fits`), which is
UTF-8 (`isUTF8_spell`) and is parsed to that (`parse_spell`). So a text is taken as canonical exactly if it is
what a value is encoded to (`canonical`).
-/

namespace Opensteer.Passwords

variable {repair : List UInt8 → Scalars}

/-! ## Texts -/

/-- Bytes that are some text's. -/
def IsUTF8 (bytes : List UInt8) : Prop := ∃ text, bytes = utf8 text

theorem IsUTF8.append {bytes bytes' : List UInt8} (h : IsUTF8 bytes) (h' : IsUTF8 bytes') : IsUTF8 (bytes ++ bytes') := by
  obtain ⟨text, rfl⟩ := h
  obtain ⟨text', rfl⟩ := h'
  exact ⟨text ++ text', (utf8_append text text').symm⟩

theorem isUTF8_ascii {bytes : List UInt8} (h : ∀ byte ∈ bytes, byte < 0x80) : IsUTF8 bytes := by
  induction bytes with
  | nil => exact ⟨[], rfl⟩
  | cons byte bytes ih =>
    obtain ⟨hbyte, hbytes⟩ := List.forall_mem_cons.mp h
    refine (@IsUTF8.append [byte]) ⟨[Char.ofNat byte.toNat], ?_⟩ (ih hbytes)
    have hall : ∀ n < 128, [UInt8.ofNat n] = utf8 [Char.ofNat n] := by decide +kernel
    have hutf8 := hall byte.toNat (UInt8.lt_iff_toNat_lt.mp hbyte)
    rwa [UInt8.ofNat_toNat] at hutf8

theorem isUTF8_flatMap {α : Type} {l : List α} {f : α → List UInt8} (h : ∀ a ∈ l, IsUTF8 (f a)) : IsUTF8 (l.flatMap f) := by
  induction l with
  | nil => exact ⟨[], rfl⟩
  | cons a l ih =>
    obtain ⟨ha, hl⟩ := List.forall_mem_cons.mp h
    exact ha.append (ih hl)

/-- A character is one byte of ASCII, or bytes that are not. -/
theorem utf8EncodeChar_ascii (c : Char) : (∃ byte < 0x80, String.utf8EncodeChar c = [byte]) ∨
    ∀ byte ∈ String.utf8EncodeChar c, 0x80 ≤ byte := by
  have hhigh : ∀ n, 128 ≤ n → n < 256 → (0x80 : UInt8) ≤ UInt8.ofNat n := fun n hle hlt => by
    rw [UInt8.le_iff_toNat_le, UInt8.toNat_ofNat_of_lt' hlt]
    exact hle
  unfold String.utf8EncodeChar
  dsimp only
  split
  · rename_i hascii
    refine .inl ⟨_, ?_, rfl⟩
    rw [UInt8.lt_iff_toNat_lt, UInt8.toNat_ofNat_of_lt' (by show c.val.toNat < 256; omega)]
    exact Nat.lt_succ_of_le hascii
  · refine .inr ?_
    split
    · simp only [List.forall_mem_cons, List.not_mem_nil, false_implies, implies_true, and_true]
      exact ⟨hhigh _ (by omega) (by omega), hhigh _ (by omega) (by omega)⟩
    · split
      · simp only [List.forall_mem_cons, List.not_mem_nil, false_implies, implies_true, and_true]
        exact ⟨hhigh _ (by omega) (by omega), hhigh _ (by omega) (by omega), hhigh _ (by omega) (by omega)⟩
      · simp only [List.forall_mem_cons, List.not_mem_nil, false_implies, implies_true, and_true]
        exact ⟨hhigh _ (by omega) (by omega), hhigh _ (by omega) (by omega), hhigh _ (by omega) (by omega),
          hhigh _ (by omega) (by omega)⟩

namespace CanonicalJSON

theorem escaped_ascii : ∀ n < 128, ∀ byte ∈ escaped (UInt8.ofNat n), byte < 0x80 := by
  have hall : ∀ n < 128, (escaped (UInt8.ofNat n)).all (fun byte => byte < 0x80) = true := by decide +kernel
  exact fun n hn byte hbyte => of_decide_eq_true (List.all_eq_true.mp (hall n hn) byte hbyte)

theorem escaped_high {byte : UInt8} (h : 0x80 ≤ byte) : escaped byte = [byte] := by
  have hle : 128 ≤ byte.toNat := UInt8.le_iff_toNat_le.mp h
  have hshort : byte ∉ ([0x22, 0x5c, 0x08, 0x09, 0x0a, 0x0c, 0x0d] : List UInt8) := by
    intro hmem
    simp only [List.mem_cons, List.not_mem_nil, or_false] at hmem
    rcases hmem with rfl | rfl | rfl | rfl | rfl | rfl | rfl <;> exact absurd hle (by decide)
  rw [Parser.escaped_other hshort, if_neg]
  intro hlt
  have hlt : byte.toNat < 32 := UInt8.lt_iff_toNat_lt.mp hlt
  omega

theorem isUTF8_escaped (c : Char) : IsUTF8 ((String.utf8EncodeChar c).flatMap escaped) := by
  rcases utf8EncodeChar_ascii c with ⟨byte, hbyte, hc⟩ | hc
  · rw [hc, List.flatMap_singleton]
    have h := escaped_ascii byte.toNat (UInt8.lt_iff_toNat_lt.mp hbyte)
    rw [UInt8.ofNat_toNat] at h
    exact isUTF8_ascii h
  · refine ⟨[c], ?_⟩
    have hsame : (String.utf8EncodeChar c).flatMap escaped = (String.utf8EncodeChar c).flatMap fun byte => [byte] :=
      List.flatMap_congr fun byte hbyte => escaped_high (hc byte hbyte)
    rw [hsame, List.flatMap_singleton', utf8, List.flatMap_singleton]

theorem isUTF8_writeString (text : Scalars) : IsUTF8 (writeString text) := by
  have hquote : IsUTF8 [mark '"'] := isUTF8_ascii (List.all_iff_forall_prop.mp (by decide))
  refine hquote.append (IsUTF8.append ?_ hquote)
  rw [utf8, List.flatMap_assoc]
  exact isUTF8_flatMap fun c _ => isUTF8_escaped c

theorem isUTF8_join {parts : List (List UInt8)} (h : ∀ part ∈ parts, IsUTF8 part) : IsUTF8 (script.join parts) := by
  cases parts with
  | nil => exact ⟨[], rfl⟩
  | cons part parts =>
    obtain ⟨hpart, hparts⟩ := List.forall_mem_cons.mp h
    refine hpart.append (isUTF8_flatMap fun part hmem => ?_)
    exact ((@isUTF8_ascii [mark ',']) (List.all_iff_forall_prop.mp (by decide))).append (hparts part hmem)

theorem isUTF8_decimal (number : Int) : IsUTF8 (decimal number) := by
  refine IsUTF8.append ?_ (isUTF8_ascii fun byte hbyte => ?_)
  · split
    · exact isUTF8_ascii (List.all_iff_forall_prop.mp (by decide))
    · exact ⟨[], rfl⟩
  · obtain ⟨-, hle⟩ := Parser.isDigit_iff.mp (Parser.isDigit_of_mem (n := number.natAbs) hbyte)
    exact UInt8.lt_iff_toNat_lt.mpr (Nat.lt_of_le_of_lt hle (by decide))

theorem isUTF8_spell (v : JSONValue) : IsUTF8 (v.spell script) := by
  induction v using JsonTree.inductionOn with
  | null => exact isUTF8_ascii (List.all_iff_forall_prop.mp (by decide))
  | bool b => cases b <;> exact isUTF8_ascii (List.all_iff_forall_prop.mp (by decide))
  | number n => exact isUTF8_decimal n
  | string text => exact isUTF8_writeString text
  | array items ih =>
    rw [Parser.spell_array]
    refine ((@isUTF8_ascii [mark '[']) (List.all_iff_forall_prop.mp (by decide))).append (IsUTF8.append ?_ (isUTF8_ascii (List.all_iff_forall_prop.mp (by decide))))
    exact isUTF8_join (List.forall_mem_map.mpr ih)
  | object fields ih =>
    rw [Parser.spell_object]
    refine ((@isUTF8_ascii [mark '{']) (List.all_iff_forall_prop.mp (by decide))).append (IsUTF8.append ?_ (isUTF8_ascii (List.all_iff_forall_prop.mp (by decide))))
    refine isUTF8_join (List.forall_mem_map.mpr fun f hf => (isUTF8_writeString f.1).append ?_)
    exact ((@isUTF8_ascii [mark ':']) (List.all_iff_forall_prop.mp (by decide))).append (ih f hf)

/-! ## Encoding -/

/-- A value that there is an encoding of: its integers are exact in JavaScript, the keys of each object are
distinct, and its arrays and objects are nested at most 32 deep. -/
abbrev Encodable (v : JSONValue) : Prop := v.Fits Safe False maxDepth

theorem inOrder_isOrder : JsonTree.IsOrder Text.inOrder where
  trans a b c hab hbc := by
    simp only [Text.inOrder, decide_eq_true_eq] at *
    exact List.le_trans hab hbc
  total a b := by simpa [Text.inOrder] using List.le_total a b
  antisymm a b hab hba := by
    simp only [Text.inOrder, decide_eq_true_eq] at *
    exact List.le_antisymm hab hba

theorem keyOrder_isOrder : JsonTree.IsOrder keyOrder where
  trans _ _ _ := inOrder_isOrder.trans _ _ _
  total _ _ := inOrder_isOrder.total _ _
  antisymm _ _ hab hba := units_ofList_injective (inOrder_isOrder.antisymm _ _ hab hba)

theorem encode_of_fits {v : JSONValue} (h : Encodable v) : encode v = .ok ((v.arranged [keyOrder]).spell script) :=
  JsonTree.write_eq_spell (fun _ hsafe => if_pos hsafe) h

/-- The order of fields does not matter to an encoding. -/
theorem encode_reordered {v w : JSONValue} (h : Encodable v) (hvw : v.Reordered w) : encode w = encode v := by
  rw [encode_of_fits h, encode_of_fits (h.reordered hvw), hvw.arranged_eq keyOrder_isOrder h]

/-! ## Parsing -/

theorem parse_spell {v : JSONValue} {maxArrayCount maxValues : Option Nat} (h : Encodable v)
    (hvalues : Parser.allows maxValues v.count) (hwidest : Parser.allows maxArrayCount v.widest) :
    parse repair (v.spell script) maxArrayCount maxValues = .ok v := by
  obtain ⟨text, htext⟩ := isUTF8_spell v
  have hdecode : (UTF8Text.decode repair (v.spell script)).isSome = true := by
    rw [htext, decode_utf8]
    rfl
  obtain ⟨first, rest, hhead, hopens⟩ := Parser.exists_head_spell v
  generalize hp : (⟨v.spell script, maxArrayCount, maxValues, 0, 0⟩ : Parser) = p
  have hrest : p.rest = v.spell script ++ [] := by
    rw [← hp, List.append_nil]
    rfl
  have hfirst : p.rest = first :: rest := by rw [hrest, List.append_nil, hhead]
  have hread := (@Parser.readsBack repair) v p [] (3 * (v.spell script).length + 3) 0 hrest (fun _ hb => (nomatch hb))
    (by omega) h (by rw [← hp, Nat.zero_add]; exact hvalues) (by rw [← hp]; exact hwidest)
  have hend : (p.gone (v.spell script).length v.count).skipWhitespace = p.gone (v.spell script).length v.count := by
    rw [Parser.skipWhitespace, Parser.rest_gone_of hrest]
    rfl
  have hindex : (p.gone (v.spell script).length v.count).index = (v.spell script).length := by
    rw [← hp]
    exact Nat.zero_add _
  rw [parse, ensure_of hdecode, ok_bind, hp]
  dsimp only
  rw [Parser.skipWhitespace_of hfirst hopens.1, hread, ok_bind]
  dsimp only
  rw [hend, ensure_of hindex, ok_bind]
  rfl

/-- What is encoded is parsed to the value. -/
theorem parse_encode {v : JSONValue} (h : Encodable v) :
    ∃ data w, encode v = .ok data ∧ parse repair data none none = .ok w ∧ v.Reordered w :=
  ⟨_, _, encode_of_fits h, parse_spell h.arranged (fun _ hl => (nomatch hl)) (fun _ hl => (nomatch hl)),
    JsonTree.reordered_arranged _ v⟩

theorem encodable_of_parse {data : List UInt8} {maxArrayCount maxValues : Option Nat} {v : JSONValue}
    (h : parse repair data maxArrayCount maxValues = .ok v) : Encodable v := by
  have hends := (@ends_parse repair) data maxArrayCount maxValues
  rw [h] at hends
  exact hends

theorem parseCanonical_eq_ok {data : List UInt8} {v : JSONValue} :
    parseCanonical repair data = .ok v ↔ parse repair data none none = .ok v ∧ encode v = .ok data := by
  unfold parseCanonical
  constructor
  · intro h
    cases hparse : parse repair data none none with
    | error halt =>
      rw [hparse] at h
      cases h
    | ok w =>
      rw [hparse, ok_bind] at h
      obtain ⟨bytes, hbytes⟩ : ∃ bytes, encode w = .ok bytes := ⟨_, encode_of_fits (encodable_of_parse hparse)⟩
      rw [hbytes] at h
      change ensure (bytes = data) .notCanonical >>= (fun _ => .ok w) = .ok v at h
      by_cases hsame : bytes = data
      · rw [ensure_of hsame, ok_bind] at h
        obtain rfl := Except.ok.inj h
        exact ⟨rfl, hsame ▸ hbytes⟩
      · rw [ensure, if_neg hsame] at h
        cases h
  · rintro ⟨hparse, hencode⟩
    rw [hparse, ok_bind, hencode]
    change ensure (data = data) .notCanonical >>= (fun _ => .ok v) = .ok v
    rw [ensure_of rfl, ok_bind]

/-- A text is taken as canonical exactly if a value is encoded to it, and is parsed to that. -/
theorem parseCanonical_iff {data : List UInt8} {v : JSONValue} :
    (∃ w, parseCanonical repair data = .ok w ∧ v.Reordered w) ↔ Encodable v ∧ encode v = .ok data := by
  constructor
  · rintro ⟨w, hw, hvw⟩
    obtain ⟨hparse, hencode⟩ := parseCanonical_eq_ok.mp hw
    have hfits := encodable_of_parse hparse
    exact ⟨hfits.reordered hvw.symm, (encode_reordered hfits hvw.symm).trans hencode⟩
  · rintro ⟨hfits, hencode⟩
    obtain ⟨data', w, hencode', hparse, hvw⟩ := (@parse_encode repair) hfits
    obtain rfl := Except.ok.inj (hencode.symm.trans hencode')
    exact ⟨w, parseCanonical_eq_ok.mpr ⟨hparse, (encode_reordered hfits hvw).trans hencode⟩, hvw⟩

theorem parseCanonical_inj {data data' : List UInt8} {v w : JSONValue} (h : parseCanonical repair data = .ok v)
    (h' : parseCanonical repair data' = .ok w) (hvw : v.Reordered w) : data = data' := by
  obtain ⟨hparse, hencode⟩ := parseCanonical_eq_ok.mp h
  obtain ⟨-, hencode'⟩ := parseCanonical_eq_ok.mp h'
  exact Except.ok.inj (hencode.symm.trans ((encode_reordered (encodable_of_parse hparse) hvw).symm.trans hencode'))

theorem ends_parseCanonical (data : List UInt8) : Ends Encodable (parseCanonical repair data) := by
  refine (ends_parse data none none).bind fun v hv => ?_
  rw [encode_of_fits hv]
  change Ends Encodable (ensure _ .notCanonical >>= fun _ => .ok v)
  exact .ensure fun _ => hv

/-- One encoding of each value: what is encoded is parsed to the value again; a text is taken as canonical
exactly if a value is encoded to it; two texts that are taken are of different values; and every call of the
parser ends, inside of its bytes, and without an overflow. -/
theorem canonical (repair : List UInt8 → Scalars) :
    (∀ v, Encodable v → ∃ data w, encode v = .ok data ∧ parse repair data none none = .ok w ∧ v.Reordered w) ∧
    (∀ data v, (∃ w, parseCanonical repair data = .ok w ∧ v.Reordered w) ↔ Encodable v ∧ encode v = .ok data) ∧
    (∀ data data' v w, parseCanonical repair data = .ok v → parseCanonical repair data' = .ok w → v.Reordered w →
      data = data') ∧
    ∀ data, Ends (fun _ => True) (parse repair data none none) ∧ Ends (fun _ => True) (parseCanonical repair data) :=
  ⟨fun _ h => parse_encode h, fun _ _ => parseCanonical_iff, fun _ _ _ _ h h' hvw => parseCanonical_inj h h' hvw,
    fun data => ⟨(ends_parse data none none).mono fun _ _ => trivial, (ends_parseCanonical data).mono fun _ _ => trivial⟩⟩

end CanonicalJSON

end Opensteer.Passwords
