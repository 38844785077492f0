import Opensteer.RunnerRuntime.Fitted
import Opensteer.Tools.ArgumentsKept
import Mathlib.Algebra.Order.BigOperators.Group.List

/-!
# Answers are cut, never refused

What a text's JSON costs (`cost`) is that of its parts where no pair lies across them
(`cost_append`), and making a text well formed does not raise it (`cost_toWellFormed_le`). So
`fittedHead` and `fittedTail` keep their bounds (`fittedHead_spec`, `fittedTail_fits`), and the shares
of a message's texts sum to what there is (`sum_given_le`): `fittedContent_fits`.
-/

namespace Opensteer.Fitting

open Utf8 Tools Text

/-! ## What a text costs -/

/-- The bytes of a text in JSON, without its quotes. -/
def cost (text : Text) : Nat := size (escapeText text)

theorem encodedBytes_eq (numeral : Rat → List Char) (text : Text) :
    encodedBytes numeral text = cost text + 2 := serializedBytes_string numeral text

theorem escapeText_cons {unit : UInt16} {rest : Text} (h : Apart [unit] rest) :
    escapeText (unit :: rest) = escapeUnit unit ++ escapeText rest := by
  cases rest with
  | nil => simp [escapeText]
  | cons low rest =>
    have hpair : (isHighSurrogate unit && isLowSurrogate low) = false := by
      simpa [Apart] using h
    simp [escapeText, hpair]

theorem escapeText_append {text rest : Text} (h : Apart text rest) :
    escapeText (text ++ rest) = escapeText text ++ escapeText rest := by
  fun_induction escapeText text with
  | case1 => rfl
  | case2 unit => rw [List.singleton_append, escapeText_cons h]
  | case3 high low text hpair ih =>
    rw [List.cons_append, List.cons_append, escapeText, if_pos hpair, ih h.of_pair]
    rfl
  | case4 high low text hpair ih =>
    rw [List.cons_append, List.cons_append, escapeText, if_neg hpair, ← List.cons_append,
      ih h.of_cons, List.append_assoc]

theorem cost_append {text rest : Text} (h : Apart text rest) :
    cost (text ++ rest) = cost text + cost rest := by
  rw [cost, escapeText_append h, size_append]
  rfl

theorem cost_ellipsis : cost [ellipsis] = 3 := by decide +kernel

theorem cost_append_ellipsis (text : Text) : cost (text ++ [ellipsis]) = cost text + 3 := by
  rw [cost_append (apart_of_head (by decide)), cost_ellipsis]

theorem cost_ellipsis_cons (text : Text) : cost (ellipsis :: text) = cost text + 3 := by
  rw [← List.singleton_append, cost_append (apart_of_last (by decide)), cost_ellipsis, Nat.add_comm]

theorem size_escapeUnit_surrogate {unit : UInt16}
    (h : (isHighSurrogate unit || isLowSurrogate unit) = true) : size (escapeUnit unit) = 6 := by
  rw [escapeUnit, if_pos h, size_unicodeEscape]

theorem cost_cons {unit : UInt16} {rest : Text} (h : Apart [unit] rest) :
    cost (unit :: rest) = size (escapeUnit unit) + cost rest := by
  rw [cost, escapeText_cons h, size_append]
  rfl

theorem cost_replacement_cons (text : Text) : cost (0xfffd :: text) = 3 + cost text := by
  rw [cost_cons (apart_of_last (by decide))]
  rfl

theorem cost_toWellFormed_le (text : Text) : cost (toWellFormed text) ≤ cost text := by
  fun_induction toWellFormed text with
  | case1 => exact Nat.le_refl _
  | case2 unit hunit =>
    rw [cost_replacement_cons, cost_cons (apart_of_head rfl), size_escapeUnit_surrogate hunit]
    omega
  | case3 unit hunit => exact Nat.le_refl _
  | case4 high low text hpair ih =>
    simp only [cost, escapeText, hpair, if_true, size_cons] at ih ⊢
    omega
  | case5 high low text hpair ih =>
    have happart : Apart [high] (low :: text) := by simpa [Apart] using hpair
    rw [cost_cons happart]
    split
    · rename_i hunit
      rw [cost_replacement_cons, size_escapeUnit_surrogate hunit]
      omega
    · rename_i hunit
      rw [cost_cons (apart_of_last (by simp_all))]
      omega

/-! ## Cutting -/

theorem searchHead_spec (fits : Nat → Bool) (low high : Nat) (hle : low ≤ high) :
    low ≤ searchHead fits low high ∧ searchHead fits low high ≤ high ∧
      (searchHead fits low high = low ∨ fits (searchHead fits low high) = true) := by
  fun_induction searchHead fits low high with
  | case1 low high hlt middle hfits ih =>
    obtain ⟨hmin, hmax, hfound⟩ := ih (by omega)
    refine ⟨by omega, hmax, .inr ?_⟩
    obtain heq | hfound := hfound
    · rw [heq, hfits]
    · exact hfound
  | case2 low high hlt middle hfits ih =>
    obtain ⟨hmin, hmax, hfound⟩ := ih (by omega)
    exact ⟨hmin, by omega, hfound⟩
  | case3 low high hlt => exact ⟨Nat.le_refl _, hle, .inl rfl⟩

theorem searchTail_spec (fits : Nat → Bool) (low high : Nat) (hle : low ≤ high) :
    searchTail fits low high ≤ high ∧
      (searchTail fits low high = high ∨ fits (searchTail fits low high) = true) := by
  fun_induction searchTail fits low high with
  | case1 low high hlt middle hfits ih =>
    obtain ⟨hmax, hfound⟩ := ih (by omega)
    refine ⟨by omega, .inr ?_⟩
    obtain heq | hfound := hfound
    · rw [heq, hfits]
    · exact hfound
  | case2 low high hlt middle hfits ih =>
    exact ih (by omega)
  | case3 low high hlt => exact ⟨hle, .inl (by omega)⟩

theorem Apart.of_append {text middle rest : Text} (h : Apart text (middle ++ rest)) :
    Apart text middle := by
  cases middle with
  | nil => exact apart_of_head rfl
  | cons unit middle => exact h

/-- A safe cut of a well-formed text: no pair lies across it. -/
theorem surrogateSafeCut_apart {whole : Text} (hwhole : toWellFormed whole = whole) (index : Nat) :
    surrogateSafeCut whole index ≤ index ∧
      Apart (whole.take (surrogateSafeCut whole index)) (whole.drop (surrogateSafeCut whole index)) := by
  unfold surrogateSafeCut
  split
  · rename_i hcut
    obtain ⟨hpos, hlt, hlow⟩ := hcut
    refine ⟨by omega, apart_of_head ?_⟩
    rw [List.getElem?_eq_getElem hlt, Option.any_some] at hlow
    have hhigh := (@Text.isHigh_of_isLow (whole.take index) (whole.drop (index + 1))) hlow (by
      rwa [List.getElem_cons_drop, List.take_append_drop])
    rw [List.getLast?_take, if_neg (by omega), List.getElem?_eq_getElem (by omega), Option.some_or,
      Option.any_some] at hhigh
    rw [List.head?_drop, List.getElem?_eq_getElem (by omega), Option.any_some]
    exact not_isLow_of_isHigh hhigh
  · rename_i hcut
    refine ⟨Nat.le_refl _, ?_⟩
    obtain rfl | hpos := Nat.eq_zero_or_pos index
    · exact apart_of_last rfl
    · refine apart_of_head ?_
      rw [List.head?_drop]
      by_contra hlow
      have hlt : index < whole.length := by
        by_contra hge
        rw [List.getElem?_eq_none (by omega)] at hlow
        exact hlow rfl
      exact hcut ⟨hpos, hlt, by simpa using hlow⟩

theorem cost_take_safe_le {whole : Text} (hwhole : toWellFormed whole = whole) (index : Nat) :
    cost (whole.take (surrogateSafeCut whole index)) ≤ cost (whole.take index) := by
  obtain ⟨hle, happart⟩ := surrogateSafeCut_apart hwhole index
  generalize surrogateSafeCut whole index = cut at hle happart ⊢
  have htake : whole.take index = whole.take cut ++ (whole.drop cut).take (index - cut) := by
    rw [← List.take_add]
    congr 1
    omega
  have happart : Apart (whole.take cut) ((whole.drop cut).take (index - cut)) :=
    (@Apart.of_append _ _ ((whole.drop cut).drop (index - cut))) (by rwa [List.take_append_drop])
  rw [htake, cost_append happart]
  exact Nat.le_add_right _ _

/-- The start of a well-formed text, cut where no pair is. -/
def SafePrefix (kept whole : Text) : Prop := kept <+: whole ∧ toWellFormed kept = kept

/-- What `fittedHead` makes of a text: it, or a part of it and an ellipsis, which fit. -/
theorem fittedHead_spec (numeral : Rat → List Char) (text : Text) (maxBytes maxLength : Nat)
    (hlength : 0 < maxLength) :
    fittedHead numeral text maxBytes maxLength = toWellFormed text ∧ text.length ≤ maxLength ∧
        cost (toWellFormed text) + 2 ≤ maxBytes ∨
      ¬(text.length ≤ maxLength ∧ cost (toWellFormed text) + 2 ≤ maxBytes) ∧
        ∃ kept, SafePrefix kept (toWellFormed text) ∧
          fittedHead numeral text maxBytes maxLength = kept ++ [ellipsis] ∧
          kept.length + 1 ≤ maxLength ∧ (kept = [] ∨ cost kept + 5 ≤ maxBytes) := by
  have hwhole := toWellFormed_toWellFormed text
  simp only [fittedHead, length_toWellFormed, encodedBytes_eq, cost_append_ellipsis]
  split
  · rename_i hfits
    exact .inl ⟨rfl, hfits⟩
  · rename_i hfits
    obtain ⟨-, hmax, hfound⟩ := searchHead_spec
      (fun middle => decide (cost ((toWellFormed text).take middle) + 3 + 2 ≤ maxBytes)) 0
      (min text.length (maxLength - 1)) (Nat.zero_le _)
    generalize searchHead _ 0 (min text.length (maxLength - 1)) = low at hmax hfound ⊢
    obtain ⟨hcut, happart⟩ := surrogateSafeCut_apart hwhole low
    refine .inr ⟨hfits, _, ⟨List.take_prefix _ _, ?_⟩, rfl, ?_, ?_⟩
    · exact (toWellFormed_of_append happart (by rw [List.take_append_drop, hwhole])).1
    · rw [List.length_take]
      omega
    · obtain rfl | hfound := hfound
      · exact .inl (by rw [Nat.le_zero.mp hcut, List.take_zero])
      · have hcost := cost_take_safe_le hwhole low
        rw [decide_eq_true_eq] at hfound
        exact .inr (by omega)

theorem drop_toWellFormed {text : Text} {start : Nat} (h : Apart (text.take start) (text.drop start)) :
    toWellFormed (text.drop start) = (toWellFormed text).drop start := by
  obtain hle | hgt := le_or_gt start text.length
  · have happend := toWellFormed_append h
    rw [List.take_append_drop] at happend
    rw [happend, List.drop_left']
    rw [length_toWellFormed, List.length_take, Nat.min_eq_left hle]
  · rw [List.drop_eq_nil_of_le (by omega), List.drop_eq_nil_of_le (by rw [length_toWellFormed]; omega)]
    rfl

/-- Where `fittedTail` begins: at no half of a pair, and at no more cost. -/
theorem start_apart (text : Text) (low : Nat) :
    let start := if (text[low]?).any isLowSurrogate then low + 1 else low
    low ≤ start ∧ Apart (text.take start) (text.drop start) ∧ cost (text.drop start) ≤ cost (text.drop low) := by
  intro start
  by_cases hlow : (text[low]?).any isLowSurrogate = true
  · have hstart : start = low + 1 := if_pos hlow
    obtain ⟨unit, hunit, hsurrogate⟩ := (Option.any_eq_true _ _).mp hlow
    obtain ⟨hlt, rfl⟩ := List.getElem?_eq_some_iff.mp hunit
    have hhigh : isHighSurrogate text[low] = false := by
      by_contra hhigh
      rw [not_isLow_of_isHigh (by simpa using hhigh)] at hsurrogate
      cases hsurrogate
    rw [hstart]
    refine ⟨Nat.le_succ _, apart_of_last ?_, ?_⟩
    · rw [List.getLast?_take, if_neg (by omega), Nat.add_sub_cancel, hunit, Option.some_or,
        Option.any_some, hhigh]
    · rw [List.drop_eq_getElem_cons hlt, cost_cons (apart_of_last (by simpa using hhigh))]
      exact Nat.le_add_left _ _
  · have hstart : start = low := if_neg hlow
    rw [hstart]
    refine ⟨Nat.le_refl _, apart_of_head ?_, Nat.le_refl _⟩
    rw [List.head?_drop]
    exact eq_false_of_ne_true hlow

/-- The end of a text, marked when it was cut or when more is to come, which fits. -/
theorem fittedTail_fits (numeral : Rat → List Char) (text : Text) (truncated : Bool) (maxBytes : Nat)
    (hbytes : 5 ≤ maxBytes) :
    encodedBytes numeral (fittedTail numeral text truncated maxBytes) ≤ maxBytes ∧
      ∃ kept, kept <:+ toWellFormed text ∧ fittedTail numeral text truncated maxBytes =
        if truncated = true ∨ kept ≠ toWellFormed text then ellipsis :: kept else kept := by
  by_cases hfits : encodedBytes numeral
      (if truncated then ellipsis :: toWellFormed text else toWellFormed text) ≤ maxBytes
  · rw [fittedTail, if_pos hfits]
    refine ⟨hfits, toWellFormed text, List.suffix_rfl, ?_⟩
    cases truncated <;> simp
  · rw [fittedTail, if_neg hfits]
    simp only [encodedBytes_eq, cost_ellipsis_cons] at hfits ⊢
    obtain ⟨hmax, hfound⟩ := searchTail_spec
      (fun middle => decide (cost (text.drop middle) + 3 + 2 ≤ maxBytes)) 0 text.length (Nat.zero_le _)
    generalize searchTail _ 0 text.length = low at hmax hfound ⊢
    have hcost := cost_toWellFormed_le text
    have hmarked : cost (if truncated then ellipsis :: toWellFormed text else toWellFormed text) ≤
        cost (toWellFormed text) + 3 := by
      split
      · rw [cost_ellipsis_cons]
      · exact Nat.le_add_right _ _
    have hlow : cost (text.drop low) + 5 ≤ maxBytes := by
      obtain rfl | hfound := hfound
      · rw [List.drop_length]
        exact hbytes
      · simpa using hfound
    -- The whole does not fit, so that something is cut.
    have hpos : 0 < low := by
      obtain rfl | hpos := Nat.eq_zero_or_pos low
      · rw [List.drop_zero] at hlow
        omega
      · exact hpos
    obtain ⟨hstart, happart, hcheaper⟩ := start_apart text low
    generalize (if (text[low]?).any isLowSurrogate = true then low + 1 else low) = start at *
    have hdrop := drop_toWellFormed happart
    have hwell := cost_toWellFormed_le (text.drop start)
    have hne : toWellFormed (text.drop start) ≠ toWellFormed text := by
      intro heq
      have hlengths := congrArg List.length heq
      rw [length_toWellFormed, length_toWellFormed, List.length_drop] at hlengths
      omega
    refine ⟨by omega, toWellFormed (text.drop start), hdrop ▸ List.drop_suffix _ _, ?_⟩
    rw [if_pos (.inr hne)]

/-! ## A message's parts -/

/-- What is left of a part: it, or a start of its text and an ellipsis. -/
def FittedPart : ContentPart → ContentPart → Prop
  | .text before words after, part => ∃ fitted, part = .text before fitted after ∧
      toWellFormed fitted = fitted ∧ fitted.length ≤ messageTextPartMaxLength ∧
      (fitted = toWellFormed words ∨
        ∃ kept, SafePrefix kept (toWellFormed words) ∧ fitted = kept ++ [ellipsis])
  | .other fields, part => part = .other fields

theorem toWellFormed_concat_ellipsis {kept : Text} (h : toWellFormed kept = kept) :
    toWellFormed (kept ++ [ellipsis]) = kept ++ [ellipsis] := by
  rw [toWellFormed_append (apart_of_head (by decide)), h]
  rfl

theorem fittedPart_head (numeral : Rat → List Char) (part : ContentPart) (maxBytes : Nat) :
    FittedPart part (part.mapText fun text =>
      fittedHead numeral text maxBytes messageTextPartMaxLength) := by
  cases part with
  | other fields => rfl
  | text before words after =>
    refine ⟨_, rfl, ?_⟩
    beta_reduce
    obtain ⟨heq, hlength, -⟩ | ⟨-, kept, hkept, heq, hlength, -⟩ :=
      fittedHead_spec numeral words maxBytes messageTextPartMaxLength (by decide)
    · rw [heq, length_toWellFormed]
      exact ⟨toWellFormed_toWellFormed _, hlength, .inl rfl⟩
    · rw [heq]
      refine ⟨toWellFormed_concat_ellipsis hkept.2, ?_, .inr ⟨kept, hkept, rfl⟩⟩
      rwa [List.length_append]

/-- A part that is cut once more: of what is left, a start that leaves out its ellipsis. -/
theorem FittedPart.head (numeral : Rat → List Char) {part fitted : ContentPart}
    (h : FittedPart part fitted) (given : Nat) :
    FittedPart part (fitted.mapText fun text =>
      fittedHead numeral text (given + 2) messageTextPartMaxLength) := by
  cases part with
  | other fields =>
    obtain rfl : fitted = .other fields := h
    rfl
  | text before words after =>
    obtain ⟨left, rfl, hwell, hlength, hleft⟩ := h
    refine ⟨_, rfl, ?_⟩
    beta_reduce
    obtain ⟨heq, -, -⟩ | ⟨hno, kept, hkept, heq, hkeptLength, hcost⟩ :=
      fittedHead_spec numeral left (given + 2) messageTextPartMaxLength (by decide)
    · rw [heq, hwell]
      exact ⟨hwell, hlength, hleft⟩
    · rw [hwell] at hno hkept
      have hne : kept ≠ left := by
        rintro rfl
        obtain rfl | hcost := hcost
        · exact hno ⟨Nat.zero_le _, Nat.le_add_left _ _⟩
        · exact hno ⟨hlength, by omega⟩
      rw [heq]
      refine ⟨toWellFormed_concat_ellipsis hkept.2, by rwa [List.length_append], .inr ⟨kept, ?_, rfl⟩⟩
      obtain rfl | ⟨kept', hkept', rfl⟩ := hleft
      · exact hkept
      · obtain heq | hbefore := List.prefix_concat_iff.mp hkept.1
        · exact absurd heq hne
        · exact ⟨hbefore.trans hkept'.1, hkept.2⟩

/-! ## What the parts cost -/

theorem size_intercalate (items : List (List Char)) :
    size ([','].intercalate items) = (items.map size).sum + (items.length - 1) := by
  induction items with
  | nil => rfl
  | cons item items ih =>
    cases items with
    | nil => simp
    | cons next items =>
      have hcomma : size [','] = 1 := by decide
      rw [List.intercalate_cons_cons, size_append, size_append, hcomma, ih]
      simp only [List.map_cons, List.sum_cons, List.length_cons]
      omega

theorem stringifyItems_eq (numeral : Rat → List Char) (items : List Json) :
    stringifyItems numeral items = items.map (stringify numeral) := by
  induction items with
  | nil => rfl
  | cons item items ih => rw [stringifyItems, ih, List.map_cons]

theorem stringifyFields_eq (numeral : Rat → List Char) (fields : Fields) :
    stringifyFields numeral fields =
      fields.map fun field => quoteText field.1 ++ ':' :: stringify numeral field.2 := by
  induction fields with
  | nil => rfl
  | cons field fields ih => rw [stringifyFields, ih, List.map_cons]

theorem serializedBytes_array (numeral : Rat → List Char) (items : List Json) :
    Tools.serializedBytes numeral (.array items) =
      2 + (items.map fun item => size (stringify numeral item)).sum + (items.length - 1) := by
  have hbrackets : size ['['] = 1 ∧ size [']'] = 1 := by decide
  rw [serializedBytes_eq, stringify, ← List.singleton_append, size_append, size_append,
    size_intercalate, stringifyItems_eq, List.map_map, List.length_map, hbrackets.1, hbrackets.2]
  simp only [Function.comp_def]
  omega

/-- What a part's text costs. -/
def ContentPart.cost (part : ContentPart) : Nat := part.text?.elim 0 Fitting.cost

/-- The part with its text taken out. -/
def ContentPart.emptied (part : ContentPart) : ContentPart := part.mapText fun _ => []

theorem size_value (numeral : Rat → List Char) (part : ContentPart) :
    size (stringify numeral part.value) = size (stringify numeral part.emptied.value) + part.cost := by
  cases part with
  | other fields => rfl
  | text before words after =>
    have hquote : ∀ text : Text, size (quoteText text) = cost text + 2 := by
      intro text
      rw [← encodedBytes_eq (fun _ => []), encodedBytes, serializedBytes_eq, stringify]
    have hempty : Fitting.cost [] = 0 := rfl
    simp only [ContentPart.value, ContentPart.emptied, ContentPart.mapText, ContentPart.cost,
      ContentPart.text?, Option.elim_some, stringify, stringifyFields_eq, size_cons, size_append,
      size_intercalate, List.map_append, List.map_cons, List.sum_append, List.sum_cons,
      List.length_append, List.length_cons, hquote, hempty]
    omega

theorem serializedBytes_eq_cost (numeral : Rat → List Char) (content : List ContentPart) :
    serializedBytes numeral content =
      serializedBytes numeral (content.map ContentPart.emptied) + (content.map ContentPart.cost).sum := by
  have hsum : (content.map fun part => size (stringify numeral part.value)).sum =
      (content.map fun part => size (stringify numeral part.emptied.value)).sum +
        (content.map ContentPart.cost).sum := by
    rw [← List.sum_map_add]
    exact congrArg List.sum (List.map_congr_left fun part _ => size_value numeral part)
  simp only [serializedBytes, serializedBytes_array, List.map_map, List.length_map]
  simp only [Function.comp_def]
  omega

/-! ## Sharing -/

theorem sum_allotted_le (available : Nat) (texts : List (Nat × Nat)) :
    ((allotted available texts).map Prod.snd).sum ≤ available := by
  induction texts generalizing available with
  | nil => exact Nat.zero_le _
  | cons text texts ih =>
    have hgiven : min text.1 (available / (texts.length + 1)) ≤ available :=
      (Nat.min_le_right _ _).trans (Nat.div_le_self _ _)
    have hrest := ih (available - min text.1 (available / (texts.length + 1)))
    rw [allotted, List.map_cons, List.sum_cons]
    omega

theorem given_cons (share : Nat × Nat) (shares : List (Nat × Nat)) (index : Nat) :
    given (share :: shares) index = if share.1 = index then share.2 else given shares index := by
  rw [given, List.find?_cons]
  by_cases h : share.1 = index <;> simp [h, given]

theorem sum_given_le (shares : List (Nat × Nat)) {indices : List Nat} (h : indices.Nodup) :
    (indices.map (given shares)).sum ≤ (shares.map Prod.snd).sum := by
  induction shares with
  | nil =>
    have hzero : indices.map (given []) = indices.map fun _ => 0 := rfl
    rw [hzero, List.map_const', List.sum_replicate]
    exact Nat.le_of_eq (Nat.mul_zero _)
  | cons share shares ih =>
    have hothers : ∀ others : List Nat, share.1 ∉ others →
        others.map (given (share :: shares)) = others.map (given shares) := by
      intro others hnot
      refine List.map_congr_left fun index hindex => ?_
      rw [given_cons, if_neg]
      rintro rfl
      exact hnot hindex
    rw [List.map_cons, List.sum_cons]
    by_cases hmem : share.1 ∈ indices
    · have hperm := List.perm_cons_erase hmem
      have hsum := (hperm.map (given shares)).sum_eq
      rw [(hperm.map (given (share :: shares))).sum_eq, List.map_cons, List.sum_cons, given_cons,
        if_pos rfl, hothers _ h.not_mem_erase]
      rw [List.map_cons, List.sum_cons] at hsum
      omega
    · rw [hothers _ hmem]
      omega

theorem cost_head_le (numeral : Rat → List Char) (part : ContentPart) (share : Nat) :
    (part.mapText fun text =>
      fittedHead numeral text (share + 2) messageTextPartMaxLength).cost ≤ share + 3 := by
  cases part with
  | other fields => exact Nat.zero_le _
  | text before words after =>
    simp only [ContentPart.mapText, ContentPart.cost, ContentPart.text?, Option.elim_some]
    obtain ⟨heq, -, hfits⟩ | ⟨-, kept, -, heq, -, rfl | hfits⟩ :=
      fittedHead_spec numeral words (share + 2) messageTextPartMaxLength (by decide)
    · rw [heq]
      omega
    · rw [heq, List.nil_append, cost_ellipsis]
      omega
    · rw [heq, cost_append_ellipsis]
      omega

theorem sum_cost_head_le (numeral : Rat → List Char) (parts : List ContentPart)
    (shares : List (Nat × Nat)) :
    ((parts.zipIdx.map fun (part, index) => part.mapText fun text =>
      fittedHead numeral text (given shares index + 2) messageTextPartMaxLength).map
        ContentPart.cost).sum ≤ (shares.map Prod.snd).sum + 3 * parts.length := by
  have hindices : parts.zipIdx.map Prod.snd = List.range parts.length := by
    rw [List.zipIdx_map_snd, List.range_eq_range']
  have hgiven := sum_given_le shares (List.nodup_range (n := parts.length))
  calc _ ≤ (parts.zipIdx.map fun entry => given shares entry.2 + 3).sum := by
        rw [List.map_map]
        exact List.sum_le_sum fun entry _ => cost_head_le numeral entry.1 _
    _ = ((parts.zipIdx.map Prod.snd).map (given shares)).sum + 3 * parts.length := by
        have hconst : (parts.zipIdx.map fun _ => 3).sum = 3 * parts.length := by
          simp [Nat.mul_comm]
        rw [List.sum_map_add, hconst, List.map_map]
        rfl
    _ ≤ _ := by
        rw [hindices]
        omega

theorem fittedPart_self {part : ContentPart} (h : fitsPart part = true) : FittedPart part part := by
  cases part with
  | other fields => rfl
  | text before words after =>
    simp only [fitsPart, Bool.and_eq_true, decide_eq_true_eq, isWellFormed_iff] at h
    exact ⟨words, rfl, h.2, h.1, .inl h.2.symm⟩

theorem forall₂_zipIdx (numeral : Rat → List Char) (shares : List (Nat × Nat))
    {content parts : List ContentPart} (h : List.Forall₂ FittedPart content parts) (start : Nat) :
    List.Forall₂ FittedPart content ((parts.zipIdx start).map fun (part, index) =>
      part.mapText fun text =>
        fittedHead numeral text (given shares index + 2) messageTextPartMaxLength) := by
  induction h generalizing start with
  | nil => exact .nil
  | cons hpart _ ih => exact .cons (hpart.head numeral _) (ih (start + 1))

theorem emptied_mapText (f : Text → Text) (part : ContentPart) :
    (part.mapText f).emptied = part.emptied := by
  cases part <;> rfl

theorem map_emptied_zipIdx (numeral : Rat → List Char) (shares : List (Nat × Nat))
    (parts : List ContentPart) :
    ((parts.zipIdx.map fun (part, index) => part.mapText fun text =>
      fittedHead numeral text (given shares index + 2) messageTextPartMaxLength).map
        ContentPart.emptied) = parts.map ContentPart.emptied := by
  rw [List.map_map]
  calc _ = parts.zipIdx.map (ContentPart.emptied ∘ Prod.fst) :=
        List.map_congr_left fun entry _ => emptied_mapText _ entry.1
    _ = _ := by rw [← List.map_map, List.zipIdx_map_fst]

/-- The shared parts: what the structure takes, what is given, and the ellipses. -/
theorem serializedBytes_shared_le (numeral : Rat → List Char) (parts : List ContentPart)
    (shares : List (Nat × Nat)) :
    serializedBytes numeral (parts.zipIdx.map fun (part, index) => part.mapText fun text =>
      fittedHead numeral text (given shares index + 2) messageTextPartMaxLength) ≤
    serializedBytes numeral (parts.map ContentPart.emptied) + (shares.map Prod.snd).sum +
      3 * parts.length := by
  have hcost := sum_cost_head_le numeral parts shares
  rw [serializedBytes_eq_cost, map_emptied_zipIdx]
  omega

end Opensteer.Fitting
