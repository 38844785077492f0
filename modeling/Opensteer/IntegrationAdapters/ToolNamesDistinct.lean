import Opensteer.Core.Coding
import Opensteer.IntegrationAdapters.ToolNames

/-!
# Tool names are distinct

`seek` finds a candidate once more are tried than names are taken (`seek_spec`). `assign_spec` is that
for the operations that are left; `planOpenApiToolNames_distinct` is what follows for a document.
-/

namespace Opensteer.ToolNames

/-! ## Candidates -/

/-- The candidates in the order they are tried, the first for 1. -/
def candidate (suffixed : Text) (ordinal : Nat) : Text :=
  if ordinal ≤ 1 then suffixed else suffixed ++ Decimal.spell ordinal

theorem spell_injective {m n : Nat} (h : Decimal.spell m = Decimal.spell n) : m = n := by
  rw [← Decimal.value_spell m, h, Decimal.value_spell]

theorem candidate_injective {suffixed : Text} {m n : Nat} (hm : 0 < m) (hn : 0 < n)
    (h : candidate suffixed m = candidate suffixed n) : m = n := by
  have hspell : ∀ k : Nat, 1 < k → Decimal.spell k ≠ [] := by
    intro k hk hnil
    have hvalue := Decimal.value_spell k
    rw [hnil] at hvalue
    have : k = 0 := hvalue.symm
    omega
  unfold candidate at h
  split at h <;> split at h
  · omega
  · rename_i hle hlt
    exact absurd (List.self_eq_append_right.mp h) (hspell n (by omega))
  · rename_i hlt hle
    exact absurd (List.append_right_eq_self.mp h) (hspell m (by omega))
  · exact spell_injective (List.append_cancel_left h)

theorem candidate_succ {suffixed : Text} {ordinal : Nat} (h : 0 < ordinal) :
    candidate suffixed (ordinal + 1) = suffixed ++ Decimal.spell (ordinal + 1) :=
  if_neg (by omega)

/-- Where this many candidates are taken, so many names are. -/
theorem le_length_of_taken {taken : List Text} {suffixed : Text} {first count : Nat} (hfirst : 0 < first)
    (h : ∀ i < count, candidate suffixed (first + i) ∈ taken) : count ≤ taken.length := by
  have hnodup : ((List.range count).map fun i => candidate suffixed (first + i)).Nodup := by
    refine List.Nodup.map_on (fun i _ j _ heq => ?_) List.nodup_range
    have := candidate_injective (by omega) (by omega) heq
    omega
  have hsub : ((List.range count).map fun i => candidate suffixed (first + i)) ⊆ taken := by
    intro name hname
    obtain ⟨i, hi, rfl⟩ := List.mem_map.mp hname
    exact h i (List.mem_range.mp hi)
  simpa using (hnodup.subperm hsub).length_le

/-- What `seek` gives from a candidate on, and that it gives something. -/
theorem seek_from {taken : List Text} {suffixed : Text} (fuel first : Nat) (hfirst : 0 < first) :
    (∃ skipped, (∀ i < skipped, candidate suffixed (first + i) ∈ taken) ∧
        candidate suffixed (first + skipped) ∉ taken ∧
        seek taken suffixed fuel (candidate suffixed first) (first + 1) =
          some (candidate suffixed (first + skipped))) ∨
      ∀ i < fuel, candidate suffixed (first + i) ∈ taken := by
  induction fuel generalizing first with
  | zero => exact .inr fun i hi => absurd hi (Nat.not_lt_zero i)
  | succ fuel ih =>
    rw [seek]
    by_cases hmem : candidate suffixed first ∈ taken
    · have hshift : ∀ i, first + 1 + i = first + (i + 1) := fun i => by omega
      have hcases : ∀ {count : Nat}, (∀ i < count, candidate suffixed (first + 1 + i) ∈ taken) →
          ∀ i < count + 1, candidate suffixed (first + i) ∈ taken := by
        intro count hall i hi
        cases i with
        | zero => exact hmem
        | succ i => exact hshift i ▸ hall i (by omega)
      rw [if_pos hmem, ← candidate_succ hfirst]
      obtain ⟨skipped, hskipped, hfree, hseek⟩ | hall := ih (first + 1) (by omega)
      · exact .inl ⟨skipped + 1, hcases hskipped, hshift skipped ▸ hfree, by rw [hseek, hshift]⟩
      · exact .inr (hcases hall)
    · exact .inl ⟨0, fun i hi => absurd hi (Nat.not_lt_zero i), hmem, if_neg hmem⟩

/-- A candidate is found, that is not taken, and its number is at most one more than the names taken. -/
theorem seek_spec {taken : List Text} {suffixed : Text} {fuel : Nat} (h : taken.length < fuel) :
    ∃ ordinal, 0 < ordinal ∧ ordinal ≤ taken.length + 1 ∧ candidate suffixed ordinal ∉ taken ∧
      seek taken suffixed fuel suffixed 2 = some (candidate suffixed ordinal) := by
  obtain ⟨skipped, hskipped, hfree, hseek⟩ | hall :=
    @seek_from taken suffixed fuel 1 (by omega)
  · have hle := le_length_of_taken (by omega) hskipped
    exact ⟨1 + skipped, by omega, by omega, hfree, hseek⟩
  · exact absurd (le_length_of_taken (by omega) hall) (by omega)

/-! ## Names of ASCII -/

def Ascii (text : Text) : Prop := ∀ unit ∈ text, unit < 0x80

theorem Ascii.append {text text' : Text} (h : Ascii text) (h' : Ascii text') : Ascii (text ++ text') :=
  List.forall_mem_append.mpr ⟨h, h'⟩

theorem Ascii.take {text : Text} (h : Ascii text) (n : Nat) : Ascii (text.take n) :=
  fun unit hunit => h unit (List.mem_of_mem_take hunit)

theorem ascii_units {text : String} (h : (units text).all (· < 0x80) = true) : Ascii (units text) := by
  simpa [Ascii] using h

/-- A text of ASCII has a byte for each unit. -/
theorem length_encode {text : Text} (h : Ascii text) : (TextEncoder.encode text).length = text.length := by
  rw [TextEncoder.encode]
  show Utf8.size (scalars text) = text.length
  induction text with
  | nil => rfl
  | cons unit text ih =>
    obtain ⟨hunit, htext⟩ := List.forall_mem_cons.mp h
    have hlt : unit.toNat < 128 := UInt16.lt_iff_toNat_lt.mp hunit
    have hhigh : isHighSurrogate unit = false := by
      simp only [isHighSurrogate, Bool.and_eq_false_iff, decide_eq_false_iff_not, UInt16.le_iff_toNat_le]
      exact .inl (by simp; omega)
    have hlow : isLowSurrogate unit = false := by
      simp only [isLowSurrogate, Bool.and_eq_false_iff, decide_eq_false_iff_not, UInt16.le_iff_toNat_le]
      exact .inl (by simp; omega)
    have hsize : (scalar unit).utf8Size = 1 := by
      have hall : ∀ n < 128, (Char.ofNat n).utf8Size = 1 := by decide
      rw [scalar, hhigh, hlow, Bool.or_false, if_neg Bool.false_ne_true]
      exact hall _ hlt
    rw [scalars_cons hhigh, Utf8.size_cons, hsize, ih htext, List.length_cons, Nat.add_comm]

theorem eq_false_of_mem_splitOnP {α : Type} {p : α → Bool} {l piece : List α} {a : α}
    (h : piece ∈ l.splitOnP p) (ha : a ∈ piece) : p a = false := by
  induction l generalizing piece with
  | nil =>
    rw [List.splitOnP_nil, List.mem_singleton] at h
    subst h
    cases ha
  | cons x l ih =>
    rw [List.splitOnP_cons_eq_if_modifyHead] at h
    split at h
    · obtain rfl | h := List.mem_cons.mp h
      · cases ha
      · exact ih h ha
    · rename_i hx
      obtain ⟨first, rest, hsplit⟩ := List.exists_cons_of_ne_nil (List.splitOnP_ne_nil p l)
      rw [hsplit] at h ih
      obtain rfl | h := List.mem_cons.mp h
      · obtain rfl | ha := List.mem_cons.mp ha
        · exact Bool.eq_false_of_not_eq_true hx
        · exact ih List.mem_cons_self ha
      · exact ih (List.mem_cons_of_mem _ h) ha

/-- The words are of ASCII letters and digits. -/
theorem isWord_of_mem_splitWords {value word : Text} (h : word ∈ splitWords value) :
    ∀ unit ∈ word, isWord unit := by
  intro unit hunit
  have := eq_false_of_mem_splitOnP (List.mem_of_mem_filter h) hunit
  simpa using this

theorem isWord_iff {unit : UInt16} : isWord unit = true ↔
    48 ≤ unit.toNat ∧ unit.toNat ≤ 57 ∨ 97 ≤ unit.toNat ∧ unit.toNat ≤ 122 ∨
      65 ≤ unit.toNat ∧ unit.toNat ≤ 90 := by
  simp only [isWord, Decimal.isDigit, isLower, isUpper, Bool.or_eq_true, Bool.and_eq_true,
    decide_eq_true_eq, UInt16.le_iff_toNat_le, or_assoc]
  rfl

theorem lt_of_isWord {unit : UInt16} (h : isWord unit) : unit < 0x80 := by
  have := isWord_iff.mp h
  refine UInt16.lt_iff_toNat_lt.mpr ?_
  show unit.toNat < 128
  omega

theorem isWord_lowerUnit {unit : UInt16} (h : isWord unit) : isWord (Text.lowerUnit unit) := by
  have hunit := isWord_iff.mp h
  unfold Text.lowerUnit
  split
  · rename_i hupper
    have hle := UInt16.le_iff_toNat_le.mp hupper.1
    have hge := UInt16.le_iff_toNat_le.mp hupper.2
    have hsum : (unit + 0x20).toNat = unit.toNat + 32 := by
      have hcode : unit.toNat ≤ 90 := hge
      rw [UInt16.toNat_add]
      show (unit.toNat + 32) % 65536 = _
      omega
    have hcode : 65 ≤ unit.toNat ∧ unit.toNat ≤ 90 := ⟨hle, hge⟩
    refine isWord_iff.mpr ?_
    omega
  · split
    · rename_i hkelvin
      subst hkelvin
      revert h
      decide
    · exact h

theorem isWord_upperUnit {unit : UInt16} (h : isWord unit) : isWord (upperUnit unit) := by
  unfold upperUnit
  split
  · rename_i hlower
    simp only [isLower, Bool.and_eq_true, decide_eq_true_eq, UInt16.le_iff_toNat_le] at hlower
    have hcode : 97 ≤ unit.toNat ∧ unit.toNat ≤ 122 := hlower
    have hsub : (unit - 0x20).toNat = unit.toNat - 32 := by
      rw [UInt16.toNat_sub_of_le _ _ (UInt16.le_iff_toNat_le.mpr (by show 32 ≤ _; omega))]
      rfl
    refine isWord_iff.mpr ?_
    omega
  · exact h

theorem isWord_capitalized {word : Text} (h : ∀ unit ∈ word, isWord unit) :
    ∀ unit ∈ capitalized word, isWord unit := by
  cases word with
  | nil => exact h
  | cons first rest =>
    obtain ⟨hfirst, hrest⟩ := List.forall_mem_cons.mp h
    exact List.forall_mem_cons.mpr ⟨isWord_upperUnit hfirst, hrest⟩

theorem isWord_camel (value : Text) : ∀ unit ∈ camel value, isWord unit := by
  have hwords : ∀ word ∈ (splitWords value).map Text.toLowerCase, ∀ unit ∈ word, isWord unit := by
    intro word hword unit hunit
    obtain ⟨word', hword', rfl⟩ := List.mem_map.mp hword
    obtain ⟨unit', hunit', rfl⟩ := List.mem_map.mp hunit
    exact isWord_lowerUnit (isWord_of_mem_splitWords hword' unit' hunit')
  unfold camel
  split
  · exact List.all_eq_true.mp (by decide)
  · rename_i first rest heq
    rw [heq] at hwords
    obtain ⟨hfirst, hrest⟩ := List.forall_mem_cons.mp hwords
    refine List.forall_mem_append.mpr ⟨hfirst, fun unit hunit => ?_⟩
    obtain ⟨word, hword, hunit⟩ := List.mem_flatMap.mp hunit
    exact isWord_capitalized (hrest word hword) unit hunit

theorem ascii_of_isWord {text : Text} (h : ∀ unit ∈ text, isWord unit) : Ascii text :=
  fun unit hunit => lt_of_isWord (h unit hunit)

theorem ascii_camel (value : Text) : Ascii (camel value) := ascii_of_isWord (isWord_camel value)

theorem ascii_pathGroup (path : Text) : Ascii (pathGroup path) := by
  unfold pathGroup
  dsimp only
  split
  · exact ascii_camel _
  · exact ascii_units (by decide)

theorem ascii_groupOf (input : ToolNameInput) : Ascii (groupOf input) := by
  unfold groupOf
  split
  · exact ascii_camel _
  · exact ascii_pathGroup _

theorem ascii_leafOf (input : ToolNameInput) (group : Text) : Ascii (leafOf input group) := by
  have hleaf : ∀ seed, Ascii (if camel seed = group then camel (input.method.text ++ units " operation")
      else camel seed) := by
    intro seed
    split <;> exact ascii_camel _
  exact hleaf _

/-- A planned name is of ASCII and has at most two parts of 240 and the dot. -/
theorem plannedName_spec (input : ToolNameInput) :
    Ascii (plannedName input) ∧ (plannedName input).length ≤ 2 * maximumNamePart + 1 := by
  refine ⟨(((ascii_groupOf input).take _).append (ascii_units (by decide))).append
    ((ascii_leafOf input _).take _), ?_⟩
  have hdot : (units ".").length = 1 := by decide
  simp only [plannedName, List.length_append, List.length_take, hdot]
  omega

theorem methodWord_spec (method : Method) : Ascii (methodWord method) ∧ (methodWord method).length ≤ 7 := by
  refine ⟨ascii_of_isWord (isWord_capitalized (isWord_camel _)), ?_⟩
  cases method <;> decide

theorem ascii_spell (n : Nat) : Ascii (Decimal.spell n) := by
  intro unit hunit
  obtain ⟨d, hd, rfl⟩ := List.mem_map.mp (List.mem_reverse.mp hunit)
  have hlt := Nat.digits_lt_base (by decide) hd
  refine UInt16.lt_iff_toNat_lt.mpr ?_
  show (UInt16.ofNat (48 + d)).toNat < 128
  rw [UInt16.toNat_ofNat_of_lt' (by show 48 + d < 65536; omega)]
  omega

/-- A candidate for fewer than 10^9 operations fits. -/
theorem candidate_spec (input : ToolNameInput) {ordinal : Nat} (h : ordinal < 10 ^ 9) :
    (TextEncoder.encode (candidate (plannedName input ++ methodWord input.method) ordinal)).length ≤ 512 := by
  obtain ⟨hname, hlength⟩ := plannedName_spec input
  obtain ⟨hmethod, hlength'⟩ := methodWord_spec input.method
  have hspell : (Decimal.spell ordinal).length ≤ 9 := Decimal.length_spell_le.mpr h
  unfold candidate
  split
  · rw [length_encode (hname.append hmethod), List.length_append]
    simp only [maximumNamePart] at hlength
    omega
  · rw [length_encode ((hname.append hmethod).append (ascii_spell ordinal)), List.length_append,
      List.length_append]
    simp only [maximumNamePart] at hlength
    omega

theorem length_encode_plannedName (input : ToolNameInput) :
    (TextEncoder.encode (plannedName input)).length ≤ 512 := by
  obtain ⟨hname, hlength⟩ := plannedName_spec input
  rw [length_encode hname]
  simp only [maximumNamePart] at hlength
  omega

/-! ## A name for each operation -/

theorem exists_of_mem_right {α β : Type} {R : α → β → Prop} {l : List α} {l' : List β} {b : β}
    (h : List.Forall₂ R l l') (hb : b ∈ l') : ∃ a ∈ l, R a b := by
  induction h with
  | nil => cases hb
  | cons hab _ ih =>
    obtain rfl | hb := List.mem_cons.mp hb
    · exact ⟨_, List.mem_cons_self, hab⟩
    · obtain ⟨a, ha, hr⟩ := ih hb
      exact ⟨a, List.mem_cons_of_mem _ ha, hr⟩

/-- What an operation is named, beside the names that are taken: the name that it alone plans, or one that was
free. -/
def Named (names taken : List Text) (input : ToolNameInput) (name : Text) : Prop :=
  if totals names (plannedName input) = 1 then name = plannedName input else name ∉ taken

theorem Named.mono {names taken : List Text} {input : ToolNameInput} {name other : Text}
    (h : Named names (other :: taken) input name) : Named names taken input name := by
  by_cases hone : totals names (plannedName input) = 1
  · rw [Named, if_pos hone] at h ⊢
    exact h
  · rw [Named, if_neg hone] at h ⊢
    exact fun hin => h (List.mem_cons_of_mem _ hin)

/-- The operations that are left are named, each beside what is taken, and no two alike. -/
theorem assign_spec {fuel room : Nat} {names : List Text} (inputs : List ToolNameInput) {taken : List Text}
    (hnames : (inputs.map plannedName).Subperm names)
    (hunique : ∀ name ∈ names, totals names name = 1 → name ∈ taken) (hfuel : room ≤ fuel)
    (hroom : taken.length + (inputs.filter fun input => totals names (plannedName input) ≠ 1).length ≤ room) :
    ∃ result, assign fuel names taken inputs = some result ∧
      List.Forall₂ (Named names taken) inputs result ∧ result.Nodup ∧
      (room < 10 ^ 9 → ∀ name ∈ result, (TextEncoder.encode name).length ≤ 512) := by
  induction inputs generalizing taken with
  | nil => exact ⟨[], rfl, .nil, List.nodup_nil, nofun⟩
  | cons input inputs ih =>
    have hmem : plannedName input ∈ names := hnames.subset List.mem_cons_self
    have hrest : (inputs.map plannedName).Subperm names := (List.subperm_cons_self).trans hnames
    by_cases hone : totals names (plannedName input) = 1
    · rw [List.filter_cons_of_neg (by simpa using hone)] at hroom
      obtain ⟨result, hassign, hnamed, hnodup, hfits⟩ := ih hrest hunique hroom
      refine ⟨plannedName input :: result, by rw [assign, if_pos hone, hassign]; rfl,
        .cons (by rw [Named, if_pos hone]) hnamed, List.nodup_cons.mpr ⟨fun hin => ?_, hnodup⟩,
        fun hlt => List.forall_mem_cons.mpr ⟨length_encode_plannedName input, hfits hlt⟩⟩
      obtain ⟨input', hinput', hname⟩ := exists_of_mem_right hnamed hin
      unfold Named at hname
      split at hname
      · -- Two operations plan the name.
        have hcount := hnames.count_le (plannedName input)
        rw [List.map_cons, List.count_cons_self] at hcount
        have hplans : plannedName input ∈ inputs.map plannedName := hname ▸ List.mem_map_of_mem hinput'
        have hpos := List.count_pos_iff.mpr hplans
        have : names.count (plannedName input) = 1 := hone
        omega
      · exact hname (hunique _ hmem hone)
    · rw [List.filter_cons_of_pos (by simpa using hone), List.length_cons] at hroom
      obtain ⟨ordinal, -, hle, hfree, hseek⟩ := @seek_spec taken
        (plannedName input ++ methodWord input.method) fuel (by omega)
      generalize hname : candidate (plannedName input ++ methodWord input.method) ordinal = name at hfree hseek
      obtain ⟨result, hassign, hnamed, hnodup, hfits⟩ := @ih (name :: taken) hrest
        (fun name' hname' hone' => List.mem_cons_of_mem _ (hunique name' hname' hone'))
        (by rw [List.length_cons]; omega)
      refine ⟨name :: result, ?_, .cons (by rwa [Named, if_neg hone]) (hnamed.imp fun _ _ h => h.mono),
        List.nodup_cons.mpr ⟨fun hin => ?_, hnodup⟩,
        fun hlt => List.forall_mem_cons.mpr ⟨hname ▸ candidate_spec input (by omega), hfits hlt⟩⟩
      · rw [assign, if_neg hone]
        dsimp only
        rw [hseek, Option.bind_some, hassign]
        rfl
      · obtain ⟨input', hinput', hname'⟩ := exists_of_mem_right hnamed hin
        unfold Named at hname'
        split at hname'
        · rename_i hone'
          exact hfree (hname' ▸ hunique _ (hrest.subset (List.mem_map_of_mem hinput')) hone')
        · exact hname' List.mem_cons_self

/-- Where no two operations plan one name, each has the name it plans. -/
theorem planOpenApiToolNames_of_nodup {fuel : Nat} {inputs : List ToolNameInput}
    (h : (inputs.map plannedName).Nodup) : planOpenApiToolNames fuel inputs = some (inputs.map plannedName) := by
  have hassign : ∀ (names taken : List Text) (inputs : List ToolNameInput),
      (∀ input ∈ inputs, totals names (plannedName input) = 1) →
        assign fuel names taken inputs = some (inputs.map plannedName) := by
    intro names taken inputs hone
    induction inputs with
    | nil => rfl
    | cons input inputs ih =>
      obtain ⟨hinput, hinputs⟩ := List.forall_mem_cons.mp hone
      rw [assign, if_pos hinput, ih hinputs]
      rfl
  exact hassign _ _ _ fun input hinput => List.count_eq_one_of_mem h (List.mem_map_of_mem hinput)

/-- Each operation is named, in its place, with a name of its own that fits; the name that one operation alone
plans is its name; and where no two plan one name, the operations in another order have the same names. -/
theorem planOpenApiToolNames_distinct (inputs : List ToolNameInput) {fuel : Nat} (hfuel : inputs.length ≤ fuel) :
    ∃ names, planOpenApiToolNames fuel inputs = some names ∧ names.length = inputs.length ∧ names.Nodup ∧
      (inputs.length < 10 ^ 9 → ∀ name ∈ names, (TextEncoder.encode name).length ≤ 512) ∧
      List.Forall₂ (fun input name => (inputs.map plannedName).count (plannedName input) = 1 →
        name = plannedName input) inputs names ∧
      ((inputs.map plannedName).Nodup → ∀ inputs', inputs'.Perm inputs →
        names = inputs.map plannedName ∧
          planOpenApiToolNames fuel inputs' = some (inputs'.map plannedName)) := by
  obtain ⟨names, hassign, hnamed, hnodup, hfits⟩ := @assign_spec fuel inputs.length
    (inputs.map plannedName) inputs
    ((inputs.map plannedName).filter fun name => totals (inputs.map plannedName) name = 1)
    (List.Subperm.refl _) (fun name hname hone => List.mem_filter.mpr ⟨hname, by simpa using hone⟩) hfuel
    (by
      rw [List.filter_map, List.length_map]
      have := List.length_eq_length_filter_add (l := inputs)
        (fun input => decide (totals (inputs.map plannedName) (plannedName input) = 1))
      simp only [Function.comp_def, ne_eq, decide_not]
      omega)
  refine ⟨names, hassign, hnamed.length_eq.symm, hnodup, hfits, hnamed.imp fun input name hname hone => ?_,
    fun hplanned inputs' hperm => ⟨?_, planOpenApiToolNames_of_nodup ?_⟩⟩
  · unfold Named at hname
    rwa [if_pos (show totals _ _ = 1 from hone)] at hname
  · exact Option.some.inj (hassign.symm.trans (planOpenApiToolNames_of_nodup hplanned))
  · exact (hperm.map plannedName).nodup_iff.mpr hplanned

/-- Two operations on one name, and one whose name is the first of them with its method. -/
def listed : List ToolNameInput :=
  [{ method := .get, operationId := units "listItems", path := units "/v1/items" },
    { method := .get, operationId := units "listItems", path := units "/v2/items" },
    { method := .post, operationId := units "list_items_get", path := units "/items" }]

theorem planOpenApiToolNames_distinct_listed :
    ∃ names, planOpenApiToolNames 3 listed = some names ∧ names.length = listed.length ∧ names.Nodup ∧
      (listed.length < 10 ^ 9 → ∀ name ∈ names, (TextEncoder.encode name).length ≤ 512) ∧
      List.Forall₂ (fun input name => (listed.map plannedName).count (plannedName input) = 1 →
        name = plannedName input) listed names ∧
      ((listed.map plannedName).Nodup → ∀ inputs', inputs'.Perm listed →
        names = listed.map plannedName ∧
          planOpenApiToolNames 3 inputs' = some (inputs'.map plannedName)) :=
  planOpenApiToolNames_distinct listed (by decide)

example : planOpenApiToolNames 3 listed =
    some [units "items.listItemsGet2", units "items.listItemsGet3", units "items.listItemsGet"] := by
  decide +kernel

end Opensteer.ToolNames
