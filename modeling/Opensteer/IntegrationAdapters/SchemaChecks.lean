import Opensteer.Framework.Fuelled
import Opensteer.IntegrationAdapters.SchemaValidity

/-!
# What each keyword decides

The keywords of a schema are looked up one after the other (`member_fields`), and what is not there is not
checked. For each kind of schema, `Decided` says what a value is checked for, where the schemas in it are
decided.
-/

namespace Opensteer.JsonSchema

/-! ## The keywords of a schema -/

theorem units_inj {s t : String} : units s = units t ↔ s = t := by
  refine ⟨fun h => ?_, congrArg units⟩
  rw [← String.ofList_toList (s := s), ← String.ofList_toList (s := t)] at h
  exact String.toList_inj.mp (units_ofList_injective h)

@[simp] theorem get?_nil (key : Text) : get? [] key = none := rfl

@[simp] theorem get?_cons (key key' : Text) (value : Value) (fields : Fields) :
    get? ((key, value) :: fields) key' = if key = key' then some value else get? fields key' := by
  by_cases h : key = key' <;> simp [get?, h]

@[simp] theorem get?_append (fields fields' : Fields) (key : Text) :
    get? (fields ++ fields') key = (get? fields key).or (get? fields' key) := by
  induction fields with
  | nil => rfl
  | cons e fields ih =>
    rw [List.cons_append, get?_cons, get?_cons, ih]
    split <;> rfl

@[simp] theorem get?_keyword (name : String) (value : Option Value) (key : Text) :
    get? (keyword name value) key = if units name = key then value else none := by
  cases value with
  | none => simp [keyword]
  | some value => simp [keyword]

/-- What comes after the keywords of a schema: at most the definitions. -/
def IsRest (rest : Fields) : Prop := ∀ name, name ≠ "$defs" → get? rest (units name) = none

theorem member_keyword {name : String} (fields : Fields) (h : inherited (units name) = false) :
    (Record.own fields).member (units name) = get? fields (units name) := by
  rw [inherited, Bool.or_eq_false_iff] at h
  simp only [decide_eq_false_iff_not] at h
  rw [Record.member, if_neg h.1, if_neg h.2, Option.or_none]

/-- The keywords that are looked up in a schema. -/
def keywords : List String :=
  ["$ref", "anyOf", "oneOf", "allOf", "enum", "type", "minLength", "maxLength", "pattern", "minimum",
    "maximum", "items", "minItems", "maxItems", "required", "additionalProperties", "properties"]

theorem not_inherited : keywords.all (fun name => !inherited (units name)) = true := by decide +kernel

variable {rest : Fields} {name : String}

theorem member_fields (hrest : IsRest rest) (hname : name ∈ keywords) (schema : Schema) :
    (Record.own (schema.fields ++ rest)).member (units name) = get? schema.fields (units name) := by
  have hinherited := List.all_eq_true.mp not_inherited name hname
  have hdefs : name ≠ "$defs" := by
    rintro rfl
    simp [keywords] at hname
  rw [member_keyword _ (by simpa using hinherited), get?_append, hrest name hdefs, Option.or_none]

def Lacks (fields : Fields) (names : List String) : Prop :=
  ∀ name ∈ names, (Record.own fields).member (units name) = none

/-- A schema's one keyword of those that are looked up. -/
structure HasOnly (fields : Fields) (name : String) (value : Value) : Prop where
  self : (Record.own fields).member (units name) = some value
  other : Lacks fields (keywords.erase name)

theorem HasOnly.of_fields {schema : Schema} {value : Value} (hrest : IsRest rest) (hname : name ∈ keywords)
    (hfields : schema.fields = [(units name, value)]) : HasOnly (schema.fields ++ rest) name value where
  self := by rw [member_fields hrest hname, hfields, get?_cons, if_pos rfl]
  other := by
    intro name' hname'
    have hne : name' ≠ name := by
      rintro rfl
      exact List.Nodup.not_mem_erase (by simp [keywords]) hname'
    rw [member_fields hrest (List.mem_of_mem_erase hname'), hfields, get?_cons,
      if_neg (fun h => hne (units_inj.mp h).symm), get?_nil]

theorem HasOnly.lacks {fields : Fields} {value : Value} {names : List String} (h : HasOnly fields name value)
    (hnames : names ⊆ keywords.erase name) : Lacks fields names :=
  fun name' hname' => h.other name' (hnames hname')

section

variable {o : Outside} {validate : Value → Value → Text → Option (List JsonSchemaIssue)} {value : Value}
  {path : Text} {fields : Fields}

theorem checkAnyOf_none (h : Lacks fields ["anyOf"]) :
    checkAnyOf validate (.own fields) value path = some none := by
  rw [checkAnyOf, alternatives, listed, h _ List.mem_cons_self]

theorem checkOneOf_none (h : Lacks fields ["oneOf"]) :
    checkOneOf validate (.own fields) value path = some none := by
  rw [checkOneOf, alternatives, listed, h _ List.mem_cons_self]

theorem checkAllOf_none (h : Lacks fields ["allOf"]) :
    checkAllOf validate (.own fields) value path = some none := by
  rw [checkAllOf, alternatives, listed, h _ List.mem_cons_self]

theorem broken_none {keyword before after : String} {breaks : Rat → Bool} (h : Lacks fields [keyword]) :
    broken o (.own fields) path keyword before after breaks = none := by
  rw [broken, bound, h _ List.mem_cons_self]
  rfl

theorem checkText_none {text : Text} (h : Lacks fields ["minLength", "maxLength", "pattern"]) :
    checkText o (.own fields) path text = none := by
  simp only [Lacks, List.forall_mem_cons] at h
  simp [checkText, broken, bound, h]

theorem checkNumber_none {number : Number} (h : Lacks fields ["minimum", "maximum"]) :
    checkNumber o (.own fields) path number = none := by
  simp only [Lacks, List.forall_mem_cons] at h
  simp [checkNumber, broken, bound, h]

theorem checkEnum_none (h : Lacks fields ["enum"]) : checkEnum (.own fields) path value = none := by
  rw [checkEnum, h _ List.mem_cons_self]

theorem checkType_none (h : Lacks fields ["type"]) : checkType o (.own fields) path value = none := by
  rw [checkType, h _ List.mem_cons_self]
  rfl

/-- The members of a value are not checked where there is nothing on them. -/
theorem checkParts_nil (h : Lacks fields ["items", "required", "additionalProperties", "properties"]) :
    checkParts o validate (.own fields) value path = some [] := by
  simp only [Lacks, List.forall_mem_cons] at h
  have hitems : (if isType (.own fields) "array" then (Record.own fields).member (units "items") else none) =
      none := by
    rw [h.1, ite_self]
  have hproperties : propertiesOf (.own fields) = .own [] := by
    rw [propertiesOf, h.2.2.2.1]
    rfl
  unfold checkParts
  rw [hitems]
  split
  · contradiction
  · split
    · simp [checkProperties, hproperties, Record.entries, checkRequired, checkAdditional, h]
    · rfl

theorem checkValue_none_iff : checkValue o (.own fields) path value = none ↔
    checkEnum (.own fields) path value = none ∧ checkType o (.own fields) path value = none ∧
      (∀ text, value = .string text → checkText o (.own fields) path text = none) ∧
        ∀ number, value = .number number → checkNumber o (.own fields) path number = none := by
  unfold checkValue
  rw [Option.or_eq_none_iff, Option.or_eq_none_iff]
  cases value <;> simp

theorem checkValue_none (h : Lacks fields ["enum", "type", "minLength", "maxLength", "pattern", "minimum", "maximum"]) :
    checkValue o (.own fields) path value = none := by
  rw [checkValue_none_iff]
  refine ⟨checkEnum_none fun name hname => h name ?_, checkType_none fun name hname => h name ?_,
    fun text _ => checkText_none fun name hname => h name ?_,
    fun number _ => checkNumber_none fun name hname => h name ?_⟩
  all_goals
    simp only [List.mem_cons, List.not_mem_nil, or_false] at hname ⊢
    tauto

theorem broken_ne_nil {record : Record} {keyword before after : String} {breaks : Rat → Bool} :
    broken o record path keyword before after breaks ≠ some [] := by
  rw [broken]
  cases bound record keyword with
  | none => simp
  | some n =>
    rw [Option.bind_some]
    split <;> simp

theorem or_ne_nil {a b : Option (List JsonSchemaIssue)} (ha : a ≠ some []) (hb : b ≠ some []) :
    a.or b ≠ some [] := by
  cases a with
  | none => exact hb
  | some issues => exact ha

theorem checkValue_ne_nil {record : Record} : checkValue o record path value ≠ some [] := by
  unfold checkValue
  refine or_ne_nil ?_ (or_ne_nil ?_ ?_)
  · rw [checkEnum]
    split
    · split <;> simp
    · simp
  · intro h
    obtain ⟨types, -, h⟩ := Option.bind_eq_some_iff.mp h
    split at h <;> cases h
  · split
    · refine or_ne_nil broken_ne_nil (or_ne_nil broken_ne_nil ?_)
      split
      · split <;> simp
      · simp
    · exact or_ne_nil broken_ne_nil broken_ne_nil
    · simp

end

/-- From some fuel on a value is checked, and it has no issue exactly where `P` holds. -/
def Decided (o : Outside) (root schema value : Value) (P : Prop) : Prop :=
  ∃ n, ∀ fuel ≥ n, ∀ path, ∃ issues, validateJsonSchema o fuel schema value root path = some issues ∧
    (issues = [] ↔ P)

section

variable {o : Outside} {root value : Value} {fields : Fields} {schemas : List Schema} {P : Schema → Prop}

theorem Decided.of_succ {schema : Value} {Q : Prop} (n : Nat) (h : ∀ fuel ≥ n, ∀ path, ∃ issues,
    validateJsonSchema o (fuel + 1) schema value root path = some issues ∧ (issues = [] ↔ Q)) :
    Decided o root schema value Q := by
  refine ⟨n + 1, fun fuel hfuel path => ?_⟩
  obtain ⟨fuel, rfl⟩ : ∃ k, fuel = k + 1 := ⟨fuel - 1, by omega⟩
  exact h fuel (by omega) path

theorem jsonList_eq (schemas : List Schema) : jsonList schemas = schemas.map Schema.json := by
  induction schemas with
  | nil => rfl
  | cons schema schemas ih => rw [jsonList, ih, List.map_cons, Schema.json]

theorem jsonFields_eq (properties : List (Text × Schema)) :
    jsonFields properties = properties.map fun e => (e.1, e.2.json) := by
  induction properties with
  | nil => rfl
  | cons e properties ih => rw [jsonFields, ih, List.map_cons, Schema.json]

/-- The schemas that a keyword lists are each asked of the value. -/
theorem Decided.of_alternatives {Q : Prop}
    (hschemas : ∀ schema ∈ schemas, Decided o root schema.json value (P schema))
    (h : ∀ fuel path found,
      ((jsonList schemas).mapM fun entry => validateJsonSchema o fuel entry value root path) = some found →
      List.Forall₂ (fun schema issues => issues = [] ↔ P schema) schemas found →
      ∃ issues, validateJsonSchema o (fuel + 1) (.object fields) value root path = some issues ∧
        (issues = [] ↔ Q)) :
    Decided o root (.object fields) value Q := by
  obtain ⟨n, hn⟩ := exists_fuel_mapM
    (f := fun fuel path (schema : Schema) => validateJsonSchema o fuel schema.json value root path) hschemas
  refine .of_succ n fun fuel hfuel path => ?_
  obtain ⟨found, hfound, hiff⟩ := hn fuel hfuel path
  refine h fuel path found ?_ hiff
  rw [jsonList_eq, List.mapM_map]
  exact hfound

/-- A schema without a reference. -/
theorem validate_of_lacks (h : Lacks fields ["$ref"]) (fuel : Nat) (path : Text) :
    validateJsonSchema o (fuel + 1) (.object fields) value root path =
      (let validate schema value path := validateJsonSchema o fuel schema value root path
      andThen (checkAnyOf validate (.own fields) value path) <|
        andThen (checkOneOf validate (.own fields) value path) <|
          andThen (checkAllOf validate (.own fields) value path) <|
            andThen (some (checkValue o (.own fields) path value)) <|
              checkParts o validate (.own fields) value path) := by
  have hreferenced : referenced (.own fields) = none := by rw [referenced, h _ List.mem_cons_self]
  simp only [validateJsonSchema, asRecord, hreferenced]

theorem decided_anyOf (h : HasOnly fields "anyOf" (.array (jsonList schemas)))
    (hschemas : ∀ schema ∈ schemas, Decided o root schema.json value (P schema)) :
    Decided o root (.object fields) value (∃ schema ∈ schemas, P schema) := by
  refine .of_alternatives hschemas fun fuel path found hfound hiff => ?_
  have hany : found.any List.isEmpty = true ↔ ∃ schema ∈ schemas, P schema := by
    rw [← exists_iff_of_forall₂ hiff]
    simp
  rw [validate_of_lacks (h.lacks (by simp [keywords]))]
  dsimp only
  rw [checkOneOf_none (h.lacks (by simp [keywords])), checkAllOf_none (h.lacks (by simp [keywords])), checkAnyOf, alternatives, listed, h.self]
  simp only [hfound, Option.map_some]
  rw [checkValue_none (h.lacks (by simp [keywords])), checkParts_nil (h.lacks (by simp [keywords])), andThen, Option.bind_some]
  by_cases hcase : found.any List.isEmpty = true
  · rw [if_pos hcase]
    exact ⟨[], rfl, iff_of_true rfl (hany.mp hcase)⟩
  · rw [if_neg hcase]
    exact ⟨_, rfl, iff_of_false (List.cons_ne_nil _ _) fun hex => hcase (hany.mpr hex)⟩

theorem decided_oneOf (h : HasOnly fields "oneOf" (.array (jsonList schemas)))
    (hschemas : ∀ schema ∈ schemas, Decided o root schema.json value (P schema)) :
    Decided o root (.object fields) value (∃ before schema after, schemas = before ++ schema :: after ∧ P schema ∧
      ∀ other ∈ before ++ after, ¬P other) := by
  refine .of_alternatives hschemas fun fuel path found hfound hiff => ?_
  have hone := countP_eq_one_iff_of_forall₂ hiff
  have hcount : found.countP List.isEmpty = found.countP fun issues => decide (issues = []) :=
    List.countP_congr fun issues _ => by simp
  rw [validate_of_lacks (h.lacks (by simp [keywords]))]
  dsimp only
  rw [checkAnyOf_none (h.lacks (by simp [keywords])), checkAllOf_none (h.lacks (by simp [keywords])),
    checkOneOf, alternatives, listed, h.self]
  simp only [hfound, Option.map_some]
  rw [checkValue_none (h.lacks (by simp [keywords])), checkParts_nil (h.lacks (by simp [keywords])), hcount,
    ← hone]
  by_cases hcase : found.countP (fun issues => decide (issues = [])) = 1
  · rw [if_pos hcase]
    exact ⟨[], rfl, iff_of_true rfl hcase⟩
  · rw [if_neg hcase]
    exact ⟨_, rfl, iff_of_false (List.cons_ne_nil _ _) hcase⟩

theorem decided_allOf (h : HasOnly fields "allOf" (.array (jsonList schemas)))
    (hschemas : ∀ schema ∈ schemas, Decided o root schema.json value (P schema)) :
    Decided o root (.object fields) value (∀ schema ∈ schemas, P schema) := by
  refine .of_alternatives hschemas fun fuel path found hfound hiff => ?_
  have hall : found.flatten = [] ↔ ∀ schema ∈ schemas, P schema := by
    rw [← forall_iff_of_forall₂ hiff, List.flatten_eq_nil_iff]
  rw [validate_of_lacks (h.lacks (by simp [keywords]))]
  dsimp only
  rw [checkAnyOf_none (h.lacks (by simp [keywords])), checkOneOf_none (h.lacks (by simp [keywords])),
    checkAllOf, alternatives, listed, h.self]
  simp only [hfound, Option.map_some]
  rw [checkValue_none (h.lacks (by simp [keywords])), checkParts_nil (h.lacks (by simp [keywords])),
    ← hall]
  by_cases hcase : found.flatten = []
  · rw [if_pos (List.isEmpty_iff.mpr hcase)]
    exact ⟨[], rfl, iff_of_true rfl hcase⟩
  · rw [if_neg (mt List.isEmpty_iff.mp hcase)]
    exact ⟨_, rfl, Iff.rfl⟩

/-- A schema that asks nothing of the parts of the value. -/
theorem decided_checked {Q : Prop} (h : Lacks fields
    ["$ref", "anyOf", "oneOf", "allOf", "items", "required", "additionalProperties", "properties"])
    (hiff : ∀ path, checkValue o (.own fields) path value = none ↔ Q) :
    Decided o root (.object fields) value Q := by
  have hlacks : ∀ {names : List String}, names ⊆
      ["$ref", "anyOf", "oneOf", "allOf", "items", "required", "additionalProperties", "properties"] →
      Lacks fields names := fun hnames name hname => h name (hnames hname)
  refine .of_succ 0 fun fuel _ path => ?_
  rw [validate_of_lacks (hlacks (by simp))]
  dsimp only
  rw [checkAnyOf_none (hlacks (by simp)), checkOneOf_none (hlacks (by simp)),
    checkAllOf_none (hlacks (by simp)), checkParts_nil (hlacks (by simp)), ← hiff path]
  cases hcheck : checkValue o (.own fields) path value with
  | none => exact ⟨[], rfl, iff_of_true rfl rfl⟩
  | some issues =>
    refine ⟨issues, rfl, iff_of_false ?_ (Option.some_ne_none _)⟩
    rintro rfl
    exact checkValue_ne_nil hcheck

theorem permits_iff (hvalue : IsJson value) (name : TypeName) :
    permits value (.string name.text) = true ↔ HasType name value := by
  cases name <;> cases hvalue <;>
    simp [permits, TypeName.text, units_inj, HasType, asRecord, typeOf]

theorem decided_type (hvalue : IsJson value) {name : TypeName}
    (h : HasOnly fields "type" (.string name.text)) :
    Decided o root (.object fields) value (HasType name value) := by
  refine decided_checked (h.lacks (by simp [keywords])) fun path => ?_
  have htype : checkType o (.own fields) path value = none ↔ HasType name value := by
    simp [checkType, h.self, permits_iff hvalue]
  rw [checkValue_none_iff, htype]
  refine ⟨fun hnone => hnone.2.1, fun htype => ⟨checkEnum_none (h.lacks (by simp [keywords])), htype,
    fun _ _ => checkText_none (h.lacks (by simp [keywords])),
    fun _ _ => checkNumber_none (h.lacks (by simp [keywords]))⟩⟩

theorem decided_types (hvalue : IsJson value) {names : List TypeName}
    (h : HasOnly fields "type" (.array (names.map fun name => .string name.text))) :
    Decided o root (.object fields) value (∃ name ∈ names, HasType name value) := by
  refine decided_checked (h.lacks (by simp [keywords])) fun path => ?_
  have htype : checkType o (.own fields) path value = none ↔ ∃ name ∈ names, HasType name value := by
    simp [checkType, h.self, permits_iff hvalue]
  rw [checkValue_none_iff, htype]
  refine ⟨fun hnone => hnone.2.1, fun htype => ⟨checkEnum_none (h.lacks (by simp [keywords])), htype,
    fun _ _ => checkText_none (h.lacks (by simp [keywords])),
    fun _ _ => checkNumber_none (h.lacks (by simp [keywords]))⟩⟩

theorem decided_enum {scalars : List Scalar} (h : HasOnly fields "enum" (.array (scalars.map Scalar.json)))
    (hplain : Plain (.enum scalars) value) :
    Decided o root (.object fields) value (∃ scalar ∈ scalars, scalar.Equals value) := by
  refine decided_checked (h.lacks (by simp [keywords])) fun path => ?_
  have hidentical : ∀ scalar ∈ scalars, identical scalar.json value = true ↔ scalar.Equals value := by
    intro scalar hscalar
    cases value <;> cases scalar <;> simp [identical, Scalar.json, Scalar.Equals]
    rename_i n n'
    exact ⟨fun heq => congrArg Number.value heq, hplain n' hscalar⟩
  have henum : checkEnum (.own fields) path value = none ↔ ∃ scalar ∈ scalars, scalar.Equals value := by
    rw [checkEnum, h.self]
    simp only [List.any_map, Function.comp_def]
    rw [ite_eq_left_iff, imp_iff_not (by simp), not_not, List.any_eq_true]
    exact exists_congr fun scalar => and_congr_right (hidentical scalar)
  rw [checkValue_none_iff, henum]
  refine ⟨fun hnone => hnone.1, fun henum => ⟨henum, checkType_none (h.lacks (by simp [keywords])),
    fun _ _ => checkText_none (h.lacks (by simp [keywords])),
    fun _ _ => checkNumber_none (h.lacks (by simp [keywords]))⟩⟩

theorem broken_none_iff {path : Text} {name before after : String} {n : Number} {breaks : Rat → Bool}
    (h : (Record.own fields).member (units name) = some (.number n)) :
    broken o (.own fields) path name before after breaks = none ↔ breaks n.value = false := by
  rw [broken, bound, h]
  simp

theorem decided_text {P : Text → Prop} (h : Lacks fields (["$ref", "anyOf", "oneOf", "allOf"] ++
      ["items", "required", "additionalProperties", "properties"] ++ ["enum", "type", "minimum", "maximum"]))
    (htext : ∀ path text, checkText o (.own fields) path text = none ↔ P text) :
    Decided o root (.object fields) value (∀ text, value = .string text → P text) := by
  refine decided_checked (fun name hname => h name (List.mem_append_left _ hname)) fun path => ?_
  have hlacks : ∀ {names : List String}, names ⊆ ["enum", "type", "minimum", "maximum"] → Lacks fields names :=
    fun hnames name hname => h name (List.mem_append_right _ (hnames hname))
  rw [checkValue_none_iff]
  simp only [htext]
  exact ⟨fun hnone => hnone.2.2.1, fun htext => ⟨checkEnum_none (hlacks (by simp)),
    checkType_none (hlacks (by simp)), htext, fun _ _ => checkNumber_none (hlacks (by simp))⟩⟩

theorem decided_number {P : Number → Prop} (h : Lacks fields (["$ref", "anyOf", "oneOf", "allOf"] ++
      ["items", "required", "additionalProperties", "properties"] ++
      ["enum", "type", "minLength", "maxLength", "pattern"]))
    (hnumber : ∀ path number, checkNumber o (.own fields) path number = none ↔ P number) :
    Decided o root (.object fields) value (∀ number, value = .number number → P number) := by
  refine decided_checked (fun name hname => h name (List.mem_append_left _ hname)) fun path => ?_
  have hlacks : ∀ {names : List String}, names ⊆ ["enum", "type", "minLength", "maxLength", "pattern"] →
      Lacks fields names := fun hnames name hname => h name (List.mem_append_right _ (hnames hname))
  rw [checkValue_none_iff]
  simp only [hnumber]
  exact ⟨fun hnone => hnone.2.2.2, fun hnumber => ⟨checkEnum_none (hlacks (by simp)),
    checkType_none (hlacks (by simp)), fun _ _ => checkText_none (hlacks (by simp)), hnumber⟩⟩

theorem decided_minLength {n : Nat} (h : HasOnly fields "minLength" (natural n)) :
    Decided o root (.object fields) value (∀ text, value = .string text → n ≤ text.length) := by
  have hmax : Lacks fields ["maxLength"] := h.lacks (by simp [keywords])
  have hpattern : Lacks fields ["pattern"] := h.lacks (by simp [keywords])
  refine decided_text (h.lacks (by simp [keywords])) fun path text => ?_
  rw [checkText, broken_none hmax, Option.none_or, hpattern _ List.mem_cons_self, Option.or_none,
    broken_none_iff h.self]
  simp [Number.value]

theorem decided_maxLength {n : Nat} (h : HasOnly fields "maxLength" (natural n)) :
    Decided o root (.object fields) value (∀ text, value = .string text → text.length ≤ n) := by
  have hmin : Lacks fields ["minLength"] := h.lacks (by simp [keywords])
  have hpattern : Lacks fields ["pattern"] := h.lacks (by simp [keywords])
  refine decided_text (h.lacks (by simp [keywords])) fun path text => ?_
  rw [checkText, broken_none hmin, Option.none_or, hpattern _ List.mem_cons_self, Option.or_none,
    broken_none_iff h.self]
  simp [Number.value]

theorem decided_minimum {n : Number} (h : HasOnly fields "minimum" (.number n)) :
    Decided o root (.object fields) value (∀ number, value = .number number → n.value ≤ number.value) := by
  have hmax : Lacks fields ["maximum"] := h.lacks (by simp [keywords])
  refine decided_number (h.lacks (by simp [keywords])) fun path number => ?_
  rw [checkNumber, broken_none hmax, Option.or_none, broken_none_iff h.self]
  simp

theorem decided_maximum {n : Number} (h : HasOnly fields "maximum" (.number n)) :
    Decided o root (.object fields) value (∀ number, value = .number number → number.value ≤ n.value) := by
  have hmin : Lacks fields ["minimum"] := h.lacks (by simp [keywords])
  refine decided_number (h.lacks (by simp [keywords])) fun path number => ?_
  rw [checkNumber, broken_none hmin, Option.none_or, broken_none_iff h.self]
  simp

/-! ## Arrays and objects -/

/-- What is not looked up in a schema that is asked of arrays, or of objects. -/
def unasked : List String :=
  ["$ref", "anyOf", "oneOf", "allOf", "enum", "minLength", "maxLength", "pattern", "minimum", "maximum"]

/-- A schema that asks of a value that it is an array or an object, and then checks the parts. -/
theorem validate_typed {name : String} (h : Lacks fields unasked)
    (htype : (Record.own fields).member (units "type") = some (.string (units name))) (fuel : Nat) (path : Text) :
    validateJsonSchema o (fuel + 1) (.object fields) value root path =
      if permits value (.string (units name)) then
        checkParts o (fun schema value path => validateJsonSchema o fuel schema value root path) (.own fields)
          value path
      else some [{ path, message := units "must have type " ++ o.spelled (.string (units name)) }] := by
  have hlacks : ∀ {names : List String}, names ⊆ unasked → Lacks fields names :=
    fun hnames name hname => h name (hnames hname)
  rw [validate_of_lacks (hlacks (by simp [unasked]))]
  dsimp only
  rw [checkAnyOf_none (hlacks (by simp [unasked])), checkOneOf_none (hlacks (by simp [unasked])),
    checkAllOf_none (hlacks (by simp [unasked]))]
  have hvalue : checkValue o (.own fields) path value = checkType o (.own fields) path value := by
    unfold checkValue
    rw [checkEnum_none (hlacks (by simp [unasked])), Option.none_or]
    cases value with
    | string text => simp only [checkText_none (hlacks (by simp [unasked])), Option.or_none]
    | number number => simp only [checkNumber_none (hlacks (by simp [unasked])), Option.or_none]
    | _ => simp only [Option.or_none]
  rw [hvalue, checkType, htype]
  by_cases hpermits : permits value (.string (units name)) = true <;> simp [andThen, hpermits]

theorem decided_of_not_permits {name : String} {Q : Prop} (h : Lacks fields unasked)
    (htype : (Record.own fields).member (units "type") = some (.string (units name)))
    (hpermits : ¬permits value (.string (units name))) (hQ : ¬Q) : Decided o root (.object fields) value Q := by
  refine .of_succ 0 fun fuel _ path => ?_
  rw [validate_typed h htype, if_neg hpermits]
  exact ⟨_, rfl, iff_of_false (List.cons_ne_nil _ _) hQ⟩

theorem checkItems_none_iff {minItems maxItems : Option Nat} {items : List Value} {path : Text}
    (hmin : (Record.own fields).member (units "minItems") = minItems.map natural)
    (hmax : (Record.own fields).member (units "maxItems") = maxItems.map natural) :
    checkItems o (.own fields) path items = none ↔ Within minItems maxItems items.length := by
  rw [checkItems, Option.or_eq_none_iff, Within, broken, broken, bound, bound, hmin, hmax]
  cases minItems <;> cases maxItems <;> simp [natural, Number.value]

theorem checkItems_ne_nil {record : Record} {items : List Value} {path : Text} :
    checkItems o record path items ≠ some [] := or_ne_nil broken_ne_nil broken_ne_nil

section

variable {items : List Value} {itemSchema : Value} {path : Text}
  {validate : Value → Value → Text → Option (List JsonSchemaIssue)}

theorem checkParts_items (htype : isType (.own fields) "array")
    (hitems : (Record.own fields).member (units "items") = some itemSchema) :
    checkParts o validate (.own fields) (.array items) path =
      andThen (some (checkItems o (.own fields) path items))
        ((items.zipIdx.mapM fun (entry, index) =>
          validate itemSchema entry (path ++ units "[" ++ Decimal.spell index ++ units "]")).map
            List.flatten) := by
  unfold checkParts
  rw [hitems, if_pos htype]

theorem checkParts_no_items (htype : isType (.own fields) "object" = false)
    (hitems : (Record.own fields).member (units "items") = none) :
    checkParts o validate (.own fields) (.array items) path = some [] := by
  have hnone : (if isType (.own fields) "array" then none else none) = (none : Option Value) := ite_self _
  unfold checkParts
  rw [hitems, hnone, htype]
  rfl

end

theorem decided_items {schema : Schema} {minItems maxItems : Option Nat} {P : Value → Prop} {items : List Value}
    (h : Lacks fields unasked)
    (htype : (Record.own fields).member (units "type") = some (.string (units "array")))
    (hitems : (Record.own fields).member (units "items") = some schema.json)
    (hmin : (Record.own fields).member (units "minItems") = minItems.map natural)
    (hmax : (Record.own fields).member (units "maxItems") = maxItems.map natural)
    (hparts : Within minItems maxItems items.length → ∀ item ∈ items, Decided o root schema.json item (P item)) :
    Decided o root (.object fields) (.array items)
      (Within minItems maxItems items.length ∧ ∀ item ∈ items, P item) := by
  have hpermits : permits (.array items) (.string (units "array")) = true := by simp [permits, units_inj]
  have htyped : isType (.own fields) "array" = true := by simp [isType, htype]
  have hchecked : ∀ path, checkItems o (.own fields) path items = none ↔
      Within minItems maxItems items.length := fun path => checkItems_none_iff hmin hmax
  by_cases hwithin : Within minItems maxItems items.length
  · have hentries : ∀ e ∈ items.zipIdx, ∃ n, ∀ fuel ≥ n, ∀ path : Text, ∃ issues,
        validateJsonSchema o fuel schema.json e.1 root (path ++ units "[" ++ Decimal.spell e.2 ++ units "]") =
          some issues ∧ (issues = [] ↔ P e.1) := by
      intro e he
      obtain ⟨n, hn⟩ := hparts hwithin e.1 (List.fst_mem_of_mem_zipIdx he)
      exact ⟨n, fun fuel hfuel path => hn fuel hfuel _⟩
    obtain ⟨n, hn⟩ := exists_fuel_mapM hentries
    refine .of_succ n fun fuel hfuel path => ?_
    obtain ⟨found, hfound, hiff⟩ := hn fuel hfuel path
    refine ⟨found.flatten, ?_, ?_⟩
    · rw [validate_typed h htype, if_pos hpermits, checkParts_items htyped hitems, (hchecked path).mpr hwithin,
        hfound]
      rfl
    · rw [List.flatten_eq_nil_iff, forall_iff_of_forall₂ hiff, and_iff_right hwithin]
      constructor
      · intro hall item hitem
        obtain ⟨index, hindex, rfl⟩ := List.mem_iff_getElem.mp hitem
        exact hall (items[index], index) (List.mk_mem_zipIdx_iff_getElem?.mpr (by simp))
      · exact fun hall e he => hall e.1 (List.fst_mem_of_mem_zipIdx he)
  · refine .of_succ 0 fun fuel _ path => ?_
    obtain ⟨issues, hissues⟩ := Option.ne_none_iff_exists'.mp (mt (hchecked path).mp hwithin)
    have hne : issues ≠ [] := by
      rintro rfl
      exact checkItems_ne_nil hissues
    refine ⟨issues, ?_, iff_of_false hne fun hall => hwithin hall.1⟩
    rw [validate_typed h htype, if_pos hpermits, checkParts_items htyped hitems, hissues]
    rfl

theorem decided_array {schema : Option Schema} {minItems maxItems : Option Nat} {P : Schema → Value → Prop}
    (h : Lacks fields unasked)
    (htype : (Record.own fields).member (units "type") = some (.string (units "array")))
    (hitems : (Record.own fields).member (units "items") = schema.map Schema.json)
    (hmin : (Record.own fields).member (units "minItems") = minItems.map natural)
    (hmax : (Record.own fields).member (units "maxItems") = maxItems.map natural)
    (hplain : Plain (.array schema minItems maxItems) value)
    (hparts : ∀ s ∈ schema, ∀ items, value = .array items → Within minItems maxItems items.length →
      ∀ item ∈ items, Decided o root s.json item (P s item)) :
    Decided o root (.object fields) value (∃ items, value = .array items ∧
      Within minItems maxItems items.length ∧ ∀ s ∈ schema, ∀ item ∈ items, P s item) := by
  cases value with
  | array items =>
    simp only [Value.array.injEq, exists_eq_left']
    cases schema with
    | none =>
      have hobject : isType (.own fields) "object" = false := by simp [isType, htype, units_inj]
      refine .of_succ 0 fun fuel _ path => ⟨[], ?_, iff_of_true rfl ⟨hplain, by simp⟩⟩
      rw [validate_typed h htype, if_pos (by simp [permits, units_inj]), checkParts_no_items hobject hitems]
    | some s =>
      simp only [Option.mem_def, Option.some.injEq, forall_eq']
      exact decided_items h htype hitems hmin hmax (hparts s rfl items rfl)
  | _ => exact decided_of_not_permits h htype (by simp [permits, units_inj]) (by simp)

theorem mem_keys_iff {fields : Fields} {key : Text} : key ∈ keys fields ↔ (get? fields key).isSome := by
  rw [keys, get?, Option.isSome_map, List.find?_isSome, List.mem_map]
  simp

/-- A name is found on an object that has it, and on no other that is not named as what all objects have. -/
theorem member_eq_get? {fields : Fields} {key : Text} (h : inherited key → key ∈ keys fields) :
    (Record.own fields).member key = get? fields key := by
  by_cases hinherited : inherited key = true
  · obtain ⟨value, hvalue⟩ := Option.isSome_iff_exists.mp (mem_keys_iff.mp (h hinherited))
    rw [Record.member, hvalue, Option.some_or]
  · simp only [inherited, Bool.or_eq_true, decide_eq_true_eq, not_or] at hinherited
    rw [Record.member, if_neg hinherited.1, if_neg hinherited.2, Option.or_none]

theorem member_isSome_iff {fields : Fields} {key : Text} (h : inherited key → key ∈ keys fields) :
    ((Record.own fields).member key).isSome ↔ key ∈ keys fields := by
  rw [member_eq_get? h, mem_keys_iff]

theorem keys_jsonFields (properties : List (Text × Schema)) :
    keys (jsonFields properties) = properties.map Prod.fst := by
  rw [jsonFields_eq, keys, List.map_map]
  rfl

section

variable {properties : List (Text × Schema)} {required : Option (List Text)} {closed : Bool} {members : Fields}
  {path : Text}

theorem checkRequired_nil_iff (h : (Record.own fields).member (units "required") =
      required.map fun names => .array (names.map .string))
    (hplain : ∀ names ∈ required, ∀ name ∈ names, inherited name → name ∈ keys members) :
    checkRequired (.own fields) path (.own members) = [] ↔
      ∀ names ∈ required, ∀ name ∈ names, name ∈ keys members := by
  rw [checkRequired, h]
  cases required with
  | none => simp
  | some names =>
    simp only [Option.map_some, Option.mem_def, Option.some.injEq, forall_eq'] at hplain ⊢
    rw [List.flatMap_eq_nil_iff, List.forall_mem_map]
    refine forall₂_congr fun name hname => ?_
    rw [← member_isSome_iff (hplain name hname)]
    simp [Option.isSome_iff_ne_none]

theorem checkAdditional_nil_iff (h : (Record.own fields).member (units "additionalProperties") =
      if closed then some (.bool false) else none)
    (hproperties : propertiesOf (.own fields) = .own (jsonFields properties))
    (hplain : closed = true → ∀ key ∈ keys members, inherited key → key ∈ properties.map Prod.fst) :
    checkAdditional (.own fields) path (.own members) = [] ↔
      (closed = true → ∀ key ∈ keys members, key ∈ properties.map Prod.fst) := by
  rw [checkAdditional, h, hproperties]
  cases closed with
  | false => simp
  | true =>
    simp only [if_true, forall_const] at hplain ⊢
    rw [List.flatMap_eq_nil_iff]
    refine forall₂_congr fun key hkey => ?_
    rw [← keys_jsonFields, ← member_isSome_iff]
    · simp [Option.isSome_iff_ne_none]
    · rw [keys_jsonFields]
      exact hplain key hkey

theorem decided_properties {P : Schema → Value → Prop}
    (hproperties : propertiesOf (.own fields) = .own (jsonFields properties))
    (hplain : ∀ key ∈ properties.map Prod.fst, inherited key → key ∈ keys members)
    (hparts : ∀ key schema, (key, schema) ∈ properties → ∀ member, get? members key = some member →
      Decided o root schema.json member (P schema member)) :
    ∃ n, ∀ fuel ≥ n, ∀ path, ∃ issues,
      checkProperties (fun schema value path => validateJsonSchema o fuel schema value root path) (.own fields) path
          (.own members) = some issues ∧
        (issues = [] ↔ ∀ key schema, (key, schema) ∈ properties → ∀ member, get? members key = some member →
          P schema member) := by
  have heach : ∀ e ∈ properties, ∃ n, ∀ fuel ≥ n, ∀ path : Text, ∃ issues,
      (((Record.own members).member e.1).elim (some []) fun member =>
        validateJsonSchema o fuel e.2.json member root (path ++ units "." ++ e.1)) = some issues ∧
      (issues = [] ↔ ∀ member, get? members e.1 = some member → P e.2 member) := by
    intro e he
    rw [member_eq_get? (hplain e.1 (List.mem_map_of_mem he))]
    cases hmember : get? members e.1 with
    | none => exact ⟨0, fun fuel _ path => ⟨[], rfl, by simp⟩⟩
    | some member =>
      obtain ⟨n, hn⟩ := hparts e.1 e.2 he member hmember
      refine ⟨n, fun fuel hfuel path => ?_⟩
      obtain ⟨issues, hissues, hiff⟩ := hn fuel hfuel (path ++ units "." ++ e.1)
      exact ⟨issues, hissues, by simpa using hiff⟩
  obtain ⟨n, hn⟩ := exists_fuel_mapM heach
  refine ⟨n, fun fuel hfuel path => ?_⟩
  obtain ⟨found, hfound, hiff⟩ := hn fuel hfuel path
  refine ⟨found.flatten, ?_, ?_⟩
  · rw [checkProperties, hproperties, Record.entries, jsonFields_eq, List.mapM_map]
    refine Eq.trans (congrArg (fun f => Option.map List.flatten (List.mapM f properties)) ?_)
      (congrArg (Option.map List.flatten) hfound)
    funext e
    dsimp only [Function.comp]
    cases (Record.own members).member e.1 <;> rfl
  · rw [List.flatten_eq_nil_iff, forall_iff_of_forall₂ hiff]
    exact Prod.forall

theorem decided_object {properties : Option (List (Text × Schema))} {P : Schema → Value → Prop} (h : Lacks fields unasked)
    (htype : (Record.own fields).member (units "type") = some (.string (units "object")))
    (hproperties : (Record.own fields).member (units "properties") = properties.map fun properties => .object (jsonFields properties))
    (hrequired : (Record.own fields).member (units "required") =
      required.map fun names => .array (names.map .string))
    (hclosed : (Record.own fields).member (units "additionalProperties") =
      if closed then some (.bool false) else none)
    (hvalue : IsJson value) (hplain : Plain (.object properties required closed) value)
    (hparts : ∀ members, value = .object members → ∀ key schema, (key, schema) ∈ properties.getD [] →
      ∀ member, get? members key = some member → Decided o root schema.json member (P schema member)) :
    Decided o root (.object fields) value (∃ members, value = .object members ∧
      (∀ names ∈ required, ∀ name ∈ names, name ∈ keys members) ∧
      (closed = true → ∀ key ∈ keys members, key ∈ (properties.getD []).map Prod.fst) ∧
      ∀ key schema, (key, schema) ∈ properties.getD [] → ∀ member, get? members key = some member → P schema member) := by
  cases hvalue with
  | @object members hmembers =>
    simp only [Value.object.injEq, exists_eq_left']
    obtain ⟨hplainRequired, hplainClosed, hplainProperties⟩ := hplain
    have hpropertiesOf : propertiesOf (.own fields) = .own (jsonFields (properties.getD [])) := by
      rw [propertiesOf, hproperties]
      cases properties <;> rfl
    obtain ⟨n, hn⟩ := decided_properties hpropertiesOf hplainProperties (hparts members rfl)
    refine .of_succ n fun fuel hfuel path => ?_
    obtain ⟨issues, hissues, hiff⟩ := hn fuel hfuel path
    refine ⟨checkRequired (.own fields) path (.own members) ++ checkAdditional (.own fields) path (.own members) ++
      issues, ?_, ?_⟩
    · rw [validate_typed h htype, if_pos (by simp [permits, units_inj, asRecord])]
      have harray : isType (.own fields) "array" = false := by simp [isType, htype, units_inj]
      have hobject : isType (.own fields) "object" = true := by simp [isType, htype]
      unfold checkParts
      simp only [harray, hobject, Bool.false_eq_true, if_false, if_true, asRecord, hissues, Option.map_some]
    · rw [List.append_eq_nil_iff, List.append_eq_nil_iff, checkRequired_nil_iff hrequired hplainRequired,
        checkAdditional_nil_iff hclosed hpropertiesOf hplainClosed, hiff, and_assoc]
  | _ => exact decided_of_not_permits h htype (by simp [permits, units_inj, asRecord]) (by simp)

end

end

end Opensteer.JsonSchema
