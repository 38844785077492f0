import Opensteer.Tools.Arguments

/-!
# What tool arguments keep

Cutting never throws, and puts each text in place of itself (`withTextsCut_eq`). The search ends at a length at
which the value fits, though at the next it does not (`search_spec`). What none of the shapes fits is kept as
its JSON text, which always does (`fits_string`).
-/

namespace Opensteer

mutual
/-- The value with its texts replaced, in place. -/
def Json.mapTexts (f : Text → Text) : Json → Json
  | .string s => .string (f s)
  | .array items => .array (mapItems f items)
  | .object fields => .object (mapEntries f fields)
  | .null => .null
  | .bool b => .bool b
  | .number n => .number n

def Json.mapItems (f : Text → Text) : List Json → List Json
  | [] => []
  | item :: items => item.mapTexts f :: mapItems f items

def Json.mapEntries (f : Text → Text) : Fields → Fields
  | [] => []
  | (key, item) :: fields => (key, item.mapTexts f) :: mapEntries f fields
end

mutual
/-- The texts in a value. -/
def Json.texts : Json → List Text
  | .string s => [s]
  | .array items => textsOfItems items
  | .object fields => textsOfFields fields
  | _ => []

def Json.textsOfItems : List Json → List Text
  | [] => []
  | item :: items => item.texts ++ textsOfItems items

def Json.textsOfFields : Fields → List Text
  | [] => []
  | (_, item) :: fields => item.texts ++ textsOfFields fields
end

mutual
theorem Json.mapTexts_self : ∀ v : Json, v.mapTexts (fun s => s) = v
  | .string s => by rw [mapTexts]
  | .array items => by rw [mapTexts, mapItems_self items]
  | .object fields => by rw [mapTexts, mapEntries_self fields]
  | .null => by rw [mapTexts]
  | .bool b => by rw [mapTexts]
  | .number n => by rw [mapTexts]

theorem Json.mapItems_self : ∀ items : List Json, mapItems (fun s => s) items = items
  | [] => by rw [mapItems]
  | item :: items => by rw [mapItems, mapTexts_self item, mapItems_self items]

theorem Json.mapEntries_self : ∀ fields : Fields, mapEntries (fun s => s) fields = fields
  | [] => by rw [mapEntries]
  | (key, item) :: fields => by rw [mapEntries, mapTexts_self item, mapEntries_self fields]
end

namespace Tools

open Utf8

/-! ## One text -/

/-- A text cut to `n` bytes, if it is longer than these and its marker. -/
def cutText (n : Nat) (s : Text) : Text :=
  if size (scalars s) ≤ n + omissionMarkerReserveBytes then s
  else ofScalars (unmarked (firstWithin (n / 2) (scalars s)) ++ omissionMarker (omitted (scalars s) n) ++
    unmarked (lastWithin (n - n / 2) (scalars s)))

theorem withTextCut_eq (n : Nat) (s : Text) : withTextCut n s = .ok (cutText n s) := by
  have hsize := size_scalars_le s
  have hlength : (TextEncoder.encode s).length = size (scalars s) := rfl
  unfold withTextCut cutText
  dsimp only
  by_cases hshort : size (scalars s) ≤ n + omissionMarkerReserveBytes
  · rw [if_pos hshort, hlength, if_pos hshort, ite_self]
    rfl
  · have hunits : ¬s.length * 3 ≤ n + omissionMarkerReserveBytes := by
      omega
    rw [if_neg hshort, if_neg hunits, hlength, if_neg hshort, TextEncoder.encode, utf8HeadAndTail_bytes (by omega)]
    rfl

mutual
theorem withTextsCut_eq (n : Nat) : ∀ v, withTextsCut n v = .ok (v.mapTexts (cutText n))
  | .string s => by
    rw [withTextsCut, withTextCut_eq, Json.mapTexts]
    rfl
  | .array items => by
    rw [withTextsCut, withItemsCut_eq n items, Json.mapTexts]
    rfl
  | .object fields => by
    rw [withTextsCut, withEntriesCut_eq n fields, Json.mapTexts]
    rfl
  | .null => by rw [withTextsCut, Json.mapTexts]
  | .bool b => by rw [withTextsCut, Json.mapTexts]
  | .number x => by rw [withTextsCut, Json.mapTexts]

theorem withItemsCut_eq (n : Nat) : ∀ items, withItemsCut n items = .ok (Json.mapItems (cutText n) items)
  | [] => by rw [withItemsCut, Json.mapItems]
  | item :: items => by
    rw [withItemsCut, withTextsCut_eq n item, withItemsCut_eq n items, Json.mapItems]
    rfl

theorem withEntriesCut_eq (n : Nat) : ∀ fields, withEntriesCut n fields = .ok (Json.mapEntries (cutText n) fields)
  | [] => by rw [withEntriesCut, Json.mapEntries]
  | (key, item) :: fields => by
    rw [withEntriesCut, withTextsCut_eq n item, withEntriesCut_eq n fields, Json.mapEntries]
    rfl
end

/-! ## The search -/

section

variable (numeral : Rat → List Char) (value : Json)

/-- The value fits with its texts cut to `n` bytes. -/
def Fits (n : Nat) : Prop :=
  serializedBytes numeral (value.mapTexts (cutText n)) ≤ toolArgumentsMaxSerializedBytes

/-- The value fits at `n`, and at one more it does not, unless a text would be longer than the whole. -/
structure Longest (n : Nat) : Prop where
  least : minimumKeptBytes ≤ n
  most : n ≤ toolArgumentsMaxSerializedBytes
  fits : Fits numeral value n
  last : n = toolArgumentsMaxSerializedBytes ∨ ¬Fits numeral value (n + 1)

variable {numeral value}

theorem search_spec {low high : Nat} (hle : low ≤ high) (hlow : Fits numeral value low)
    (hhigh : high = toolArgumentsMaxSerializedBytes ∨ ¬Fits numeral value (high + 1)) :
    ∃ n, search numeral value low high = .ok n ∧ low ≤ n ∧ n ≤ high ∧ Fits numeral value n ∧
      (n = toolArgumentsMaxSerializedBytes ∨ ¬Fits numeral value (n + 1)) := by
  induction hgap : high - low using Nat.strong_induction_on generalizing low high with
  | _ gap ih =>
    unfold search
    by_cases hlt : low < high
    · rw [if_pos hlt]
      dsimp only
      rw [withTextsCut_eq, ok_bind]
      by_cases hmiddle : serializedBytes numeral (value.mapTexts (cutText ((low + high + 1) / 2))) ≤
          toolArgumentsMaxSerializedBytes
      · rw [if_pos hmiddle]
        obtain ⟨n, hn, hge, hrest⟩ := ih (high - (low + high + 1) / 2) (by omega) (by omega) hmiddle hhigh rfl
        exact ⟨n, hn, by omega, hrest⟩
      · rw [if_neg hmiddle]
        have hnext : (low + high + 1) / 2 - 1 + 1 = (low + high + 1) / 2 := by
          omega
        have hlarge : ¬Fits numeral value ((low + high + 1) / 2 - 1 + 1) := by
          rw [hnext]
          exact hmiddle
        obtain ⟨n, hn, hge, hle', hrest⟩ := ih ((low + high + 1) / 2 - 1 - low) (by omega) (by omega) hlow
          (.inr hlarge) rfl
        exact ⟨n, hn, hge, by omega, hrest⟩
    · rw [if_neg hlt]
      have heq : low = high := by
        omega
      exact ⟨low, rfl, Nat.le_refl _, hle, hlow, heq ▸ hhigh⟩

theorem fittedTexts_whole (h : serializedBytes numeral value ≤ toolArgumentsMaxSerializedBytes) :
    fittedTexts numeral value = .ok (some value) := by
  unfold fittedTexts
  exact if_pos h

theorem fittedTexts_none (h : ¬serializedBytes numeral value ≤ toolArgumentsMaxSerializedBytes)
    (hshortest : ¬Fits numeral value minimumKeptBytes) : fittedTexts numeral value = .ok none := by
  have hlarge : toolArgumentsMaxSerializedBytes <
      serializedBytes numeral (value.mapTexts (cutText minimumKeptBytes)) := Nat.not_le.mp hshortest
  unfold fittedTexts
  rw [if_neg h, withTextsCut_eq, ok_bind]
  exact if_pos hlarge

theorem fittedTexts_cut (h : ¬serializedBytes numeral value ≤ toolArgumentsMaxSerializedBytes)
    (hshortest : Fits numeral value minimumKeptBytes) :
    ∃ n, Longest numeral value n ∧ fittedTexts numeral value = .ok (some (value.mapTexts (cutText n))) := by
  have hsmall : ¬toolArgumentsMaxSerializedBytes <
      serializedBytes numeral (value.mapTexts (cutText minimumKeptBytes)) := Nat.not_lt.mpr hshortest
  obtain ⟨n, hn, hge, hle, hfits, hlast⟩ := search_spec (by decide) hshortest (.inl rfl)
  refine ⟨n, ⟨hge, hle, hfits, hlast⟩, ?_⟩
  unfold fittedTexts
  rw [if_neg h, withTextsCut_eq, ok_bind, if_neg hsmall]
  show (search numeral value minimumKeptBytes toolArgumentsMaxSerializedBytes >>= _) = _
  rw [hn, ok_bind, withTextsCut_eq]
  rfl

end

/-! ## Serialized sizes -/

theorem size_unicodeEscape (code : Nat) : size (unicodeEscape code) = 6 := by
  have hdigit : ∀ n < 16, (hexDigit n).utf8Size = 1 := by
    decide
  have hmod : ∀ n, (hexDigit (n % 16)).utf8Size = 1 := fun n => hdigit _ (Nat.mod_lt _ (by decide))
  unfold unicodeEscape
  simp only [size_cons, size_nil, hmod]
  rfl

theorem size_escapeChar (c : Char) : c.utf8Size ≤ size (escapeChar c) ∧ size (escapeChar c) ≤ 6 * c.utf8Size := by
  unfold escapeChar
  split
  · rename_i h; subst h; decide
  split
  · rename_i h; subst h; decide
  split
  · rename_i h; subst h; decide
  split
  · rename_i h; subst h; decide
  split
  · rename_i h; subst h; decide
  split
  · rename_i h; subst h; decide
  split
  · rename_i h; subst h; decide
  have hpos := c.utf8Size_pos
  have hle := c.utf8Size_le_four
  split
  · rw [size_unicodeEscape]
    omega
  · rw [size_cons, size_nil]
    omega

theorem size_escapeUnit (unit : UInt16) :
    (scalar unit).utf8Size ≤ size (escapeUnit unit) ∧ size (escapeUnit unit) ≤ 6 * (scalar unit).utf8Size := by
  unfold escapeUnit scalar
  split
  · rw [size_unicodeEscape]
    decide
  · exact size_escapeChar _

theorem size_escapeText (text : Text) :
    size (scalars text) ≤ size (escapeText text) ∧ size (escapeText text) ≤ 6 * size (scalars text) := by
  fun_induction escapeText text with
  | case1 => exact ⟨Nat.le_refl 0, Nat.le_refl 0⟩
  | case2 unit =>
    rw [scalars, size_cons, size_nil]
    exact size_escapeUnit unit
  | case3 high low rest hpair ih =>
    have hpos := (paired high low).utf8Size_pos
    rw [scalars, if_pos hpair, size_cons, size_cons]
    omega
  | case4 high low rest hpair ih =>
    have hunit := size_escapeUnit high
    rw [scalars, if_neg hpair, size_cons, size_append]
    omega

theorem serializedBytes_eq (numeral : Rat → List Char) (value : Json) :
    serializedBytes numeral value = size (stringify numeral value) := by
  rw [serializedBytes, jsonText, encode_ofScalars, size]

theorem serializedBytes_string (numeral : Rat → List Char) (text : Text) :
    serializedBytes numeral (.string text) = size (escapeText text) + 2 := by
  rw [serializedBytes_eq, stringify, quoteText, size_cons, size_append, size_cons, size_nil]
  show 1 + (_ + (1 + 0)) = _
  omega

theorem size_cutText_le {n : Nat} {text : Text} (h : text.length < 2 ^ 53) :
    size (scalars (cutText n text)) ≤ n + 128 := by
  unfold cutText
  split
  · rename_i hshort
    exact Nat.le_trans hshort (Nat.add_le_add_left (by decide) n)
  · have hsize := size_scalars_le text
    have hkept := kept_le (scalars text) n
    have hhead := size_unmarked_le (firstWithin (n / 2) (scalars text))
    have htail := size_unmarked_le (lastWithin (n - n / 2) (scalars text))
    have hlt : omitted (scalars text) n < 10 ^ 104 := by
      unfold omitted
      omega
    have hdigits := (Decimal.length_digitsOf_le (by decide)).mpr hlt
    rw [scalars_ofScalars, size_append, size_append, size_omissionMarker]
    omega

/-- A text alone fits when it is cut. -/
theorem fits_string (numeral : Rat → List Char) {text : Text} (h : text.length < 2 ^ 53) :
    Fits numeral (.string text) minimumKeptBytes := by
  have hcut : size (scalars (cutText 512 text)) ≤ 512 + 128 := size_cutText_le h
  have hescape := (size_escapeText (cutText 512 text)).2
  unfold Fits
  rw [Json.mapTexts, serializedBytes_string]
  show size (escapeText (cutText 512 text)) + 2 ≤ 65536
  omega

theorem fittedTexts_fits {numeral : Rat → List Char} {value fitted : Json}
    (h : fittedTexts numeral value = .ok (some fitted)) :
    serializedBytes numeral fitted ≤ toolArgumentsMaxSerializedBytes := by
  by_cases hwhole : serializedBytes numeral value ≤ toolArgumentsMaxSerializedBytes
  · rw [fittedTexts_whole hwhole] at h
    rwa [← Option.some.inj (Except.ok.inj h)]
  · by_cases hshortest : Fits numeral value minimumKeptBytes
    · obtain ⟨n, hn, hcut⟩ := fittedTexts_cut hwhole hshortest
      rw [hcut] at h
      rw [← Option.some.inj (Except.ok.inj h)]
      exact hn.fits
    · rw [fittedTexts_none hwhole hshortest] at h
      cases h

theorem fittedTexts_ok (numeral : Rat → List Char) (value : Json) : ∃ fitted, fittedTexts numeral value = .ok fitted := by
  by_cases hwhole : serializedBytes numeral value ≤ toolArgumentsMaxSerializedBytes
  · exact ⟨_, fittedTexts_whole hwhole⟩
  · by_cases hshortest : Fits numeral value minimumKeptBytes
    · obtain ⟨n, -, hcut⟩ := fittedTexts_cut hwhole hshortest
      exact ⟨_, hcut⟩
    · exact ⟨_, fittedTexts_none hwhole hshortest⟩

theorem fittedTexts_string (numeral : Rat → List Char) {text : Text} (h : text.length < 2 ^ 53) :
    ∃ fitted, fittedTexts numeral (.string text) = .ok (some fitted) := by
  by_cases hwhole : serializedBytes numeral (.string text) ≤ toolArgumentsMaxSerializedBytes
  · exact ⟨_, fittedTexts_whole hwhole⟩
  · obtain ⟨n, -, hcut⟩ := fittedTexts_cut hwhole (fits_string numeral h)
    exact ⟨_, hcut⟩

/-- Where the value's shape fits, it is what is kept. -/
theorem createToolArguments_of_fitted {numeral : Rat → List Char} {value fitted : Json}
    (h : fittedTexts numeral value = .ok (some fitted)) : createToolArguments numeral value = .ok (some fitted) := by
  unfold createToolArguments
  rw [h]
  rfl

theorem fittedParameters_ok (numeral : Rat → List Char) (value : Json) : ∃ parameters,
    fittedParameters numeral value = .ok parameters ∧
      ∀ fitted ∈ parameters, serializedBytes numeral fitted ≤ toolArgumentsMaxSerializedBytes := by
  cases value with
  | object fields =>
    obtain ⟨parameters, hok⟩ := fittedTexts_ok numeral (withParametersAsText numeral fields)
    refine ⟨parameters, hok, fun fitted hfitted => fittedTexts_fits (hok.trans ?_)⟩
    rw [Option.mem_def.mp hfitted]
  | _ => exact ⟨none, rfl, fun fitted hfitted => absurd hfitted (Option.not_mem_none fitted)⟩

theorem createToolArguments_fits {numeral : Rat → List Char} {value : Json}
    (hlength : (jsonText numeral value).length < 2 ^ 53) :
    ∃ kept, createToolArguments numeral value = .ok (some kept) ∧
      serializedBytes numeral kept ≤ toolArgumentsMaxSerializedBytes := by
  obtain ⟨first, hfirst⟩ := fittedTexts_ok numeral value
  cases first with
  | some fitted => exact ⟨fitted, createToolArguments_of_fitted hfirst, fittedTexts_fits hfirst⟩
  | none =>
    obtain ⟨last, hlast⟩ := fittedTexts_string numeral hlength
    obtain ⟨parameters, hok, hfits⟩ := fittedParameters_ok numeral value
    unfold createToolArguments
    rw [hfirst, ok_bind]
    dsimp only
    rw [hok, ok_bind]
    cases parameters with
    | some fitted => exact ⟨fitted, rfl, hfits fitted rfl⟩
    | none => exact ⟨last, hlast, fittedTexts_fits hlast⟩

/-! ## What is kept -/

/-- A text is whole, or its first and last bytes, no more than `n`, around a marker of what is between. One that
takes at most `n` bytes and 64 is whole. -/
def KeptText (n : Nat) (text kept : Text) : Prop :=
  if size (scalars text) ≤ n + omissionMarkerReserveBytes then kept = text
  else kept = text ∨ ∃ first last, first <+: scalars text ∧ last <:+ scalars text ∧ size first + size last ≤ n ∧
    kept = ofScalars (first ++ omissionMarker (size (scalars text) - (size first + size last) : Nat) ++ last)

/-- The value with its shape kept, and its texts kept to one length. -/
def KeptShape (value kept : Json) : Prop :=
  ∃ n, minimumKeptBytes ≤ n ∧ ∃ f : Text → Text, kept = value.mapTexts f ∧ ∀ text ∈ value.texts, KeptText n text (f text)

/-- At the lengths to which the search may cut the value, no byte order mark begins a window that is cut. -/
def CutsUnmarked (numeral : Rat → List Char) (value : Json) : Prop :=
  ∀ n, Longest numeral value n → ∀ text ∈ value.texts, n + omissionMarkerReserveBytes < size (scalars text) →
    (scalars text).head? ≠ some '\uFEFF' ∧ (lastWithin (n - n / 2) (scalars text)).head? ≠ some '\uFEFF'

theorem keptText_cutText {n : Nat} {text : Text} (hn : minimumKeptBytes ≤ n)
    (h : n + omissionMarkerReserveBytes < size (scalars text) →
      (scalars text).head? ≠ some '\uFEFF' ∧ (lastWithin (n - n / 2) (scalars text)).head? ≠ some '\uFEFF') :
    KeptText n text (cutText n text) := by
  unfold KeptText cutText
  by_cases hshort : size (scalars text) ≤ n + omissionMarkerReserveBytes
  · rw [if_pos hshort, if_pos hshort]
  · obtain ⟨hhead, htail⟩ := h (Nat.not_le.mp hshort)
    have hthree : 3 ≤ n / 2 := by
      change 512 ≤ n at hn
      omega
    rw [if_neg hshort, if_neg hshort, unmarked_of_not (mt (head?_firstWithin hthree).mp hhead), unmarked_of_not htail]
    exact .inr ⟨_, _, firstWithin_isPrefix _ _, lastWithin_suffix _ _, kept_le _ n, by rw [omitted, Nat.sub_sub]⟩

theorem keptShape_self (value : Json) : KeptShape value value := by
  refine ⟨minimumKeptBytes, Nat.le_refl _, fun s => s, value.mapTexts_self.symm, fun text _ => ?_⟩
  unfold KeptText
  split
  · rfl
  · exact .inl rfl

section

variable {numeral : Rat → List Char} {text : Text} {rest : List Char}

/-- What is cut of a text that begins with a byte order mark and `a` begins with `a`. -/
theorem head?_cutText {n : Nat} (hchars : scalars text = '\uFEFF' :: 'a' :: rest) (hn : minimumKeptBytes ≤ n)
    (hlong : n + omissionMarkerReserveBytes < size (scalars text)) :
    (scalars (cutText n text)).head? = some 'a' := by
  have hfour : 4 ≤ n / 2 := by
    change 512 ≤ n at hn
    omega
  have hmark : ('\uFEFF').utf8Size = 3 := rfl
  have ha : ('a').utf8Size = 1 := rfl
  rw [cutText, if_neg (Nat.not_le.mpr hlong), scalars_ofScalars, hchars, firstWithin, hmark, if_pos (by omega), firstWithin,
    ha, if_pos (by omega)]
  rfl

/-- No first and last bytes of such a text begin with `a`. -/
theorem not_keptText {n : Nat} {kept : Text} (hchars : scalars text = '\uFEFF' :: 'a' :: rest)
    (hhead : (scalars kept).head? = some 'a') : ¬KeptText n text kept := by
  have hwhole : kept ≠ text := by
    rintro rfl
    rw [hchars] at hhead
    exact absurd hhead (by simp)
  unfold KeptText
  split
  · exact hwhole
  · rintro (rfl | ⟨first, last, hfirst, -, -, rfl⟩)
    · exact hwhole rfl
    · rw [scalars_ofScalars] at hhead
      cases first with
      | nil => exact absurd hhead (by simp [omissionMarker])
      | cons c first =>
        rw [hchars] at hfirst
        obtain ⟨rfl, -⟩ := List.cons_prefix_cons.mp hfirst
        exact absurd hhead (by simp)

theorem not_keptShape_of_marked (hchars : scalars text = '\uFEFF' :: 'a' :: rest) (hlength : text.length < 2 ^ 53)
    (hlong : toolArgumentsMaxSerializedBytes < size (scalars text)) :
    ∃ kept, createToolArguments numeral (.string text) = .ok (some kept) ∧ ¬KeptShape (.string text) kept := by
  have hwhole : ¬serializedBytes numeral (.string text) ≤ toolArgumentsMaxSerializedBytes := by
    have hle := (size_escapeText text).1
    rw [serializedBytes_string]
    omega
  obtain ⟨n, hn, hcut⟩ := fittedTexts_cut hwhole (fits_string numeral hlength)
  have hcutLong : n + omissionMarkerReserveBytes < size (scalars text) := by
    by_contra hshort
    have hfits := hn.fits
    rw [Fits, Json.mapTexts, cutText, if_pos (Nat.not_lt.mp hshort)] at hfits
    exact hwhole hfits
  refine ⟨_, createToolArguments_of_fitted hcut, ?_⟩
  rintro ⟨m, -, f, hkept, htexts⟩
  rw [Json.mapTexts, Json.mapTexts] at hkept
  refine not_keptText hchars (head?_cutText hchars hn.least hcutLong) (n := m) ?_
  rw [Json.string.inj hkept]
  exact htexts text (by rw [Json.texts]; exact List.mem_singleton_self text)

end

/-- A text too long to be kept whole that begins with a byte order mark. -/
def markedText : Text := 0xfeff :: 0x61 :: List.replicate (2 * toolArgumentsMaxSerializedBytes) 0x61

end Tools

end Opensteer
