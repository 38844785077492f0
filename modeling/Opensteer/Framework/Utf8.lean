import Mathlib.Data.List.Infix

/-!
# UTF-8

The bytes of a text, and where its characters begin in them: a byte is the first of a character exactly if it
is no continuation byte (`cut_iff`). The longest prefix of a text in so many bytes (`firstWithin`), and the
longest suffix (`lastWithin`).
-/

namespace Opensteer.Utf8

/-- The bytes of a text. -/
def bytes (text : List Char) : List UInt8 := text.flatMap String.utf8EncodeChar

def size (text : List Char) : Nat := (bytes text).length

@[simp] theorem bytes_nil : bytes [] = [] := rfl

theorem bytes_cons (c : Char) (text : List Char) : bytes (c :: text) = String.utf8EncodeChar c ++ bytes text :=
  List.flatMap_cons

@[simp] theorem bytes_append (text text' : List Char) : bytes (text ++ text') = bytes text ++ bytes text' :=
  List.flatMap_append

@[simp] theorem size_nil : size [] = 0 := rfl

@[simp] theorem size_cons (c : Char) (text : List Char) : size (c :: text) = c.utf8Size + size text := by
  rw [size, bytes_cons, List.length_append, String.length_utf8EncodeChar, size]

@[simp] theorem size_append (text text' : List Char) : size (text ++ text') = size text + size text' := by
  rw [size, bytes_append, List.length_append, size, size]

theorem size_reverse (text : List Char) : size text.reverse = size text := by
  induction text with
  | nil => rfl
  | cons c text ih =>
    rw [List.reverse_cons, size_append, ih, size_cons, size_cons, size_nil, Nat.add_zero, Nat.add_comm]

theorem size_le_of_isPrefix {text text' : List Char} (h : text <+: text') : size text ≤ size text' := by
  obtain ⟨tail, rfl⟩ := h
  rw [size_append]
  exact Nat.le_add_right _ _

/-! ## Decoding -/

/-- The text that has these bytes, if there is one. -/
def decode? (bytes : List UInt8) : Option (List Char) := bytes.toByteArray.utf8Decode?.map Array.toList

theorem decode?_bytes (text : List Char) : decode? (bytes text) = some text := by
  have h : (bytes text).toByteArray.utf8Decode? = some text.toArray := List.utf8Decode?_utf8Encode
  rw [decode?, h, Option.map_some]

theorem bytes_injective {text text' : List Char} (h : bytes text = bytes text') : text = text' :=
  Option.some.inj (by rw [← decode?_bytes text, h, decode?_bytes])

theorem head?_of_prefix {c : Char} {text : List Char} (h : String.utf8EncodeChar c <+: bytes text) :
    text.head? = some c := by
  obtain ⟨tail, htail⟩ := h
  have hdecode (c : Char) (tail : List UInt8) :
      (String.utf8EncodeChar c ++ tail).toByteArray.utf8DecodeChar? 0 = some c := by
    rw [List.toByteArray_append]
    exact ByteArray.utf8DecodeChar?_utf8EncodeChar_append
  cases text with
  | nil => exact absurd (List.append_eq_nil_iff.mp htail).1 String.utf8EncodeChar_ne_nil
  | cons c' text =>
    have hc := hdecode c tail
    rw [htail, bytes_cons, hdecode] at hc
    exact hc

/-! ## Where characters begin -/

def isContinuation (byte : UInt8) : Bool := byte &&& 0xc0 == 0x80

/-- A character is a byte that begins it and continuation bytes. -/
theorem utf8EncodeChar_shape (c : Char) : ∃ lead tail, String.utf8EncodeChar c = lead :: tail ∧
    isContinuation lead = false ∧ ∀ byte ∈ tail, isContinuation byte = true := by
  have hone : ∀ n < 128, isContinuation (UInt8.ofNat n) = false := by decide
  have htwo : ∀ n < 32, isContinuation (UInt8.ofNat (n + 0xc0)) = false := by decide
  have hthree : ∀ n < 16, isContinuation (UInt8.ofNat (n + 0xe0)) = false := by decide
  have hfour : ∀ n < 8, isContinuation (UInt8.ofNat (n + 0xf0)) = false := by decide
  have htail : ∀ n < 64, isContinuation (UInt8.ofNat (n + 0x80)) = true := by decide
  have hmod : ∀ n, isContinuation (UInt8.ofNat (n % 64 + 0x80)) = true := fun n => htail _ (Nat.mod_lt _ (by decide))
  unfold String.utf8EncodeChar
  dsimp only
  split
  · rename_i hlow
    exact ⟨_, [], rfl, hone _ (Nat.lt_succ_of_le hlow), fun byte hbyte => absurd hbyte List.not_mem_nil⟩
  · split
    · refine ⟨_, _, rfl, htwo _ (Nat.mod_lt _ (by decide)), ?_⟩
      simp only [List.forall_mem_cons, hmod, true_and]
      exact fun byte hbyte => absurd hbyte List.not_mem_nil
    · split
      · refine ⟨_, _, rfl, hthree _ (Nat.mod_lt _ (by decide)), ?_⟩
        simp only [List.forall_mem_cons, hmod, true_and]
        exact fun byte hbyte => absurd hbyte List.not_mem_nil
      · refine ⟨_, _, rfl, hfour _ (Nat.mod_lt _ (by decide)), ?_⟩
        simp only [List.forall_mem_cons, hmod, true_and]
        exact fun byte hbyte => absurd hbyte List.not_mem_nil

/-- A character begins after `k` bytes of the text, or the text ends there. -/
def Cut (text : List Char) (k : Nat) : Prop := ∃ before, before <+: text ∧ size before = k

theorem cut_zero (text : List Char) : Cut text 0 := ⟨[], List.nil_prefix, rfl⟩

theorem cut_size (text : List Char) : Cut text (size text) := ⟨text, List.prefix_refl text, rfl⟩

theorem cut_cons {c : Char} {text : List Char} {k : Nat} :
    Cut (c :: text) k ↔ k = 0 ∨ ∃ j, Cut text j ∧ k = c.utf8Size + j := by
  constructor
  · rintro ⟨before, hbefore, rfl⟩
    cases before with
    | nil => exact .inl rfl
    | cons c' before =>
      obtain ⟨rfl, htext⟩ := List.cons_prefix_cons.mp hbefore
      exact .inr ⟨size before, ⟨before, htext, rfl⟩, size_cons c' before⟩
  · rintro (rfl | ⟨j, ⟨before, hbefore, rfl⟩, rfl⟩)
    · exact cut_zero _
    · exact ⟨c :: before, List.cons_prefix_cons.mpr ⟨rfl, hbefore⟩, size_cons c before⟩

/-- Where a byte is, a character begins exactly if it is no continuation byte. -/
theorem cut_iff {text : List Char} {k : Nat} {byte : UInt8} (h : (bytes text)[k]? = some byte) :
    Cut text k ↔ isContinuation byte = false := by
  induction text generalizing k with
  | nil => cases h
  | cons c text ih =>
    obtain ⟨lead, tail, hshape, hlead, htail⟩ := utf8EncodeChar_shape c
    have hsize : c.utf8Size = tail.length + 1 := by
      rw [← String.length_utf8EncodeChar, hshape, List.length_cons]
    rw [bytes_cons, hshape] at h
    cases k with
    | zero =>
      rw [← Option.some.inj h, hlead]
      exact iff_of_true (cut_zero _) rfl
    | succ k =>
      rw [List.cons_append, List.getElem?_cons_succ] at h
      rw [cut_cons, hsize]
      by_cases hk : k < tail.length
      · rw [List.getElem?_append_left hk] at h
        rw [htail byte (List.mem_of_getElem? h)]
        refine iff_of_false ?_ (fun h => Bool.false_ne_true h.symm)
        rintro (hzero | ⟨j, -, hj⟩) <;> omega
      · rw [List.getElem?_append_right (Nat.not_lt.mp hk)] at h
        rw [← ih h]
        constructor
        · rintro (hzero | ⟨j, hcut, hj⟩)
          · cases hzero
          · rwa [show k - tail.length = j by omega]
        · exact fun hcut => .inr ⟨k - tail.length, hcut, by omega⟩

/-! ## Windows -/

/-- The longest prefix in so many bytes. -/
def firstWithin : Nat → List Char → List Char
  | _, [] => []
  | n, c :: text => if c.utf8Size ≤ n then c :: firstWithin (n - c.utf8Size) text else []

/-- The longest suffix in so many bytes. -/
def lastWithin (n : Nat) (text : List Char) : List Char := (firstWithin n text.reverse).reverse

theorem firstWithin_isPrefix (n : Nat) (text : List Char) : firstWithin n text <+: text := by
  fun_induction firstWithin n text with
  | case1 => exact List.nil_prefix
  | case2 n c text _ ih => exact List.cons_prefix_cons.mpr ⟨rfl, ih⟩
  | case3 => exact List.nil_prefix

theorem size_firstWithin (n : Nat) (text : List Char) : size (firstWithin n text) ≤ n := by
  fun_induction firstWithin n text with
  | case1 => exact Nat.zero_le _
  | case2 n c text hle ih =>
    rw [size_cons]
    omega
  | case3 => exact Nat.zero_le _

theorem prefix_firstWithin {n : Nat} {text before : List Char} (hbefore : before <+: text) (hsize : size before ≤ n) :
    before <+: firstWithin n text := by
  fun_induction firstWithin n text generalizing before with
  | case1 => exact hbefore
  | case2 n c text hle ih =>
    cases before with
    | nil => exact List.nil_prefix
    | cons c' before =>
      obtain ⟨rfl, hrest⟩ := List.cons_prefix_cons.mp hbefore
      rw [size_cons] at hsize
      exact List.cons_prefix_cons.mpr ⟨rfl, ih hrest (by omega)⟩
  | case3 n c text hle =>
    cases before with
    | nil => exact List.nil_prefix
    | cons c' before =>
      obtain ⟨rfl, -⟩ := List.cons_prefix_cons.mp hbefore
      rw [size_cons] at hsize
      omega

theorem lastWithin_suffix (n : Nat) (text : List Char) : lastWithin n text <:+ text := by
  rw [← List.reverse_prefix, lastWithin, List.reverse_reverse]
  exact firstWithin_isPrefix n text.reverse

theorem size_lastWithin (n : Nat) (text : List Char) : size (lastWithin n text) ≤ n := by
  rw [lastWithin, size_reverse]
  exact size_firstWithin n text.reverse

theorem suffix_lastWithin {n : Nat} {text after : List Char} (hsuffix : after <:+ text) (hsize : size after ≤ n) :
    after <:+ lastWithin n text := by
  rw [← List.reverse_prefix, lastWithin, List.reverse_reverse]
  exact prefix_firstWithin (List.reverse_prefix.mpr hsuffix) (by rwa [size_reverse])

theorem eq_of_prefix_of_size {text text' : List Char} (h : text <+: text') (hsize : size text' ≤ size text) :
    text = text' := by
  obtain ⟨tail, rfl⟩ := h
  cases tail with
  | nil => rw [List.append_nil]
  | cons c tail =>
    rw [size_append, size_cons] at hsize
    have hpos := c.utf8Size_pos
    omega

/-- The last cut within `n` bytes is where the longest prefix ends. -/
theorem size_firstWithin_of_cut {n k : Nat} {text : List Char} (hcut : Cut text k) (hk : k ≤ n)
    (hlast : ∀ j, Cut text j → j ≤ n → j ≤ k) : size (firstWithin n text) = k := by
  obtain ⟨before, hbefore, rfl⟩ := hcut
  refine Nat.le_antisymm ?_ (size_le_of_isPrefix (prefix_firstWithin hbefore hk))
  exact hlast _ ⟨_, firstWithin_isPrefix n text, rfl⟩ (size_firstWithin n text)

/-- The first cut of which at most `n` bytes are left is where the longest suffix begins. -/
theorem size_lastWithin_of_cut {n k : Nat} {text : List Char} (hcut : Cut text k) (hk : size text ≤ k + n)
    (hfirst : ∀ j, Cut text j → size text ≤ j + n → k ≤ j) : k + size (lastWithin n text) = size text := by
  obtain ⟨before, ⟨after, rfl⟩, rfl⟩ := hcut
  rw [size_append] at hk hfirst ⊢
  have hlast := lastWithin_suffix n (before ++ after)
  obtain ⟨skipped, hskipped⟩ := hlast
  have hsize : size skipped + size (lastWithin n (before ++ after)) = size before + size after := by
    rw [← size_append, hskipped, size_append]
  have hle : size after ≤ size (lastWithin n (before ++ after)) := by
    obtain ⟨tail, htail⟩ := suffix_lastWithin (n := n) (List.suffix_append before after) (by omega)
    rw [← htail, size_append]
    exact Nat.le_add_left _ _
  have hwithin := size_lastWithin n (before ++ after)
  have hge := hfirst _ ⟨skipped, ⟨_, hskipped⟩, rfl⟩ (by omega)
  omega

theorem take_size {text before : List Char} (h : before <+: text) : (bytes text).take (size before) = bytes before := by
  obtain ⟨after, rfl⟩ := h
  rw [bytes_append, size, List.take_left]

theorem drop_size {text before after : List Char} (h : before ++ after = text) :
    (bytes text).drop (size before) = bytes after := by
  rw [← h, bytes_append, size, List.drop_left]

end Opensteer.Utf8
