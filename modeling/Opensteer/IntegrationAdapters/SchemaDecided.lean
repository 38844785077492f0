import Mathlib.Order.WellFounded
import Mathlib.Data.Fintype.Order
import Opensteer.IntegrationAdapters.SchemaChecks

/-!
# Validity is decided

What is asked in turn comes to an end where every cycle of references goes through properties or items
(`acc_asks`). By induction on it, `validateJsonSchema` finds no issue exactly where a value is valid
(`decides`), if no defect is met on the way.
-/

namespace Opensteer.JsonSchema

/-! ## What is asked comes to an end -/

theorem Direct.sizeOf_lt {schema schema' : Schema} (h : Direct schema schema') :
    sizeOf schema' < sizeOf schema := by
  cases h <;>
  · rename_i schemas hmem
    have := List.sizeOf_lt_of_mem hmem
    simp only [Schema.anyOf.sizeOf_spec, Schema.oneOf.sizeOf_spec, Schema.allOf.sizeOf_spec]
    omega

theorem mem_of_get? {fields : Fields} {key : Text} {value : Value} (h : get? fields key = some value) :
    (key, value) ∈ fields := by
  obtain ⟨e, he, rfl⟩ := Option.map_eq_some_iff.mp h
  have hkey : e.1 = key := by simpa using List.find?_some he
  rw [← hkey]
  exact List.mem_of_find?_eq_some he

theorem sizeOf_member_lt {fields : Fields} {key : Text} {value : Value} (h : get? fields key = some value) :
    sizeOf value < sizeOf (Value.object fields) := by
  have := List.sizeOf_lt_of_mem (mem_of_get? h)
  simp only [Prod.mk.sizeOf_spec] at this
  simp only [Value.object.sizeOf_spec]
  omega

variable {defs : Definitions}

/-- A definition is followed to an end where no cycle of references is asked of one value. -/
theorem acc_refers (h : ∀ name, ¬Relation.TransGen (Refers defs) name name) (name : Text) :
    Acc (fun name' name => Refers defs name name') name := by
  have hoff : ∀ name, name ∉ defs.map Prod.fst → Acc (fun name' name => Refers defs name name') name := by
    intro name hname
    refine ⟨_, fun name' hrefers => ?_⟩
    obtain ⟨schema, pointer, hfind, -⟩ := hrefers
    obtain ⟨e, he, -⟩ := Option.map_eq_some_iff.mp hfind
    have hkey : e.1 = name := by simpa using List.find?_some he
    exact absurd (List.mem_map.mpr ⟨e, List.mem_of_find?_eq_some he, hkey⟩) hname
  let Named := {name : Text // name ∈ defs.map Prod.fst}
  let reached (name' name : Named) : Prop := Relation.TransGen (Refers defs) name.1 name'.1
  have : Finite Named := List.finite_toSet (defs.map Prod.fst)
  have : IsTrans Named reached := ⟨fun _ _ _ hab hbc => hbc.trans hab⟩
  have : Std.Irrefl reached := ⟨fun name => h name.1⟩
  have hwf : WellFounded reached := Finite.wellFounded_of_trans_of_irrefl reached
  by_cases hname : name ∈ defs.map Prod.fst
  · have hacc : ∀ name : Named, Acc (fun name' name => Refers defs name name') name.1 := by
      intro name
      induction name using hwf.induction with
      | _ name ih =>
        refine ⟨_, fun name' hrefers => ?_⟩
        by_cases hname' : name' ∈ defs.map Prod.fst
        · exact ih ⟨name', hname'⟩ (.single hrefers)
        · exact hoff name' hname'
    exact hacc ⟨name, hname⟩
  · exact hoff name hname

/-- What is asked of a value, and of its parts, comes to an end. -/
theorem acc_asks (h : ∀ name, ¬Relation.TransGen (Refers defs) name name) (schema : Schema) (value : Value) :
    Acc (fun p' p => Asks defs p p') (schema, value) := by
  induction hsize : sizeOf value using Nat.strongRecOn generalizing schema value with
  | _ size ih =>
    subst hsize
    -- A schema, where the definitions it asks of the value come to an end.
    have hschema : ∀ n schema, sizeOf schema = n →
        (∀ pointer name definition, Relation.ReflTransGen Direct schema (.ref pointer) →
          definitionOf pointer = some name → defs.find? name = some definition →
            Acc (fun p' p => Asks defs p p') (definition, value)) →
        Acc (fun p' p => Asks defs p p') (schema, value) := by
      intro n
      induction n using Nat.strongRecOn with
      | _ n ihn =>
        intro schema hn hdefs
        subst hn
        refine ⟨_, fun p hasks => ?_⟩
        cases hasks with
        | ref hname hfind => exact hdefs _ _ _ .refl hname hfind
        | direct hdirect =>
          exact ihn _ hdirect.sizeOf_lt _ rfl fun pointer name definition hreach =>
            hdefs pointer name definition (.head hdirect hreach)
        | item hwithin hitem =>
          refine ih _ ?_ _ _ rfl
          have := List.sizeOf_lt_of_mem hitem
          simp only [Value.array.sizeOf_spec]
          omega
        | property hmem hget => exact ih _ (sizeOf_member_lt hget) _ _ rfl
    have hdefinition : ∀ name definition, defs.find? name = some definition →
        Acc (fun p' p => Asks defs p p') (definition, value) := by
      intro name
      induction acc_refers h name with
      | intro name _ ihname =>
        intro definition hfind
        refine hschema _ definition rfl fun pointer name' definition' hreach hname' hfind' => ?_
        exact ihname name' ⟨definition, pointer, hfind, hreach, hname'⟩ definition' hfind'
    exact hschema _ schema rfl fun _ name definition _ _ hfind => hdefinition name definition hfind

/-! ## References -/

theorem get?_jsonFields (defs : Definitions) (name : Text) :
    get? (jsonFields defs) name = (defs.find? name).map Schema.json := by
  rw [jsonFields_eq, get?, List.find?_map, Definitions.find?, Option.map_map, Option.map_map]
  rfl

theorem get?_defs (schema : Schema) : get? schema.fields (units "$defs") = none := by
  cases schema with
  | array items minItems maxItems =>
    cases items <;> simp [Schema.fields, jsonOption, units_inj]
  | object properties required closed =>
    cases properties <;> cases closed <;> simp [Schema.fields, jsonProperties, units_inj]
  | _ => simp [Schema.fields, units_inj]

theorem definition_rootJson {schema target : Schema} {name : Text} (h : defs.find? name = some target) :
    definition (rootJson schema defs) name = some target.json := by
  have hdefs : (Record.own (schema.fields ++ [(units "$defs", .object (jsonFields defs))])).member (units "$defs") =
      some (.object (jsonFields defs)) := by
    rw [member_keyword _ (by decide +kernel), get?_append, get?_defs, Option.none_or, get?_cons, if_pos rfl]
  rw [definition, rootJson, asRecord, Option.bind_some, hdefs, Option.bind_some, asRecord, Option.bind_some,
    Record.member, get?_jsonFields, h]
  rfl

theorem decided_ref {o : Outside} {root value : Value} {fields : Fields} {pointer : Text} {target : Schema}
    {Q : Prop} (h : HasOnly fields "$ref" (.string (units "#/$defs/" ++ pointer)))
    (hdefinition : definition root pointer = some target.json) (htarget : Decided o root target.json value Q) :
    Decided o root (.object fields) value Q := by
  have hreferenced : referenced (.own fields) = some pointer := by
    simp [referenced, h.self]
  obtain ⟨n, hn⟩ := htarget
  refine .of_succ n fun fuel hfuel path => ?_
  obtain ⟨issues, hissues, hiff⟩ := hn fuel hfuel path
  refine ⟨issues, ?_, hiff⟩
  simp only [validateJsonSchema, asRecord, hreferenced, hdefinition]
  exact hissues

/-! ## Every schema -/

theorem lacks_of_get? {schema : Schema} {names : List String} (hrest : IsRest rest) (hnames : names ⊆ keywords)
    (h : ∀ name ∈ names, get? schema.fields (units name) = none) : Lacks (schema.fields ++ rest) names :=
  fun name hname => (member_fields hrest (hnames hname) schema).trans (h name hname)

theorem lacks_array {items : Option Schema} {minItems maxItems : Option Nat} (hrest : IsRest rest) :
    Lacks ((Schema.array items minItems maxItems).fields ++ rest) unasked := by
  refine lacks_of_get? hrest (by simp [unasked, keywords]) ?_
  cases items <;> simp [unasked, Schema.fields, jsonOption, units_inj]

theorem lacks_object {properties : Option (List (Text × Schema))} {required : Option (List Text)} {closed : Bool}
    (hrest : IsRest rest) : Lacks ((Schema.object properties required closed).fields ++ rest) unasked := by
  refine lacks_of_get? hrest (by simp [unasked, keywords]) ?_
  cases properties <;> cases closed <;> simp [unasked, Schema.fields, jsonProperties, units_inj]

theorem isRest_nil : IsRest [] := fun _ _ => rfl

theorem isRest_defs (value : Value) : IsRest [(units "$defs", value)] := by
  intro name hname
  rw [get?_cons, if_neg fun h => hname (units_inj.mp h).symm, get?_nil]

variable {o : Outside} {V : Schema → Value → Prop} {root : Schema}

theorem Resolves.contains {schema schema' : Schema} (h : Resolves defs schema) (hcontains : Contains schema schema') :
    Resolves defs schema' := fun pointer hreach => h pointer (.head hcontains hreach)

theorem Clear.asks {schema schema' : Schema} {value value' : Value} (h : Clear defs schema value)
    (hasks : Asks defs (schema, value) (schema', value')) : Clear defs schema' value' :=
  fun schema'' value'' hreach => h schema'' value'' (.head hasks hreach)

theorem IsJson.item {items : List Value} (h : IsJson (.array items)) : ∀ item ∈ items, IsJson item := by
  cases h with
  | array hitems => exact hitems

theorem IsJson.get? {fields : Fields} (h : IsJson (.object fields)) {key : Text} {value : Value}
    (hget : get? fields key = some value) : IsJson value := by
  cases h with
  | object hfields => exact hfields _ (mem_of_get? hget)

/-- Every schema in a schema, and every definition, is decided as it is meant. -/
theorem decides (hV : IsValidity defs V) (hguarded : ∀ name, ¬Relation.TransGen (Refers defs) name name)
    (hdefs : ∀ name schema, defs.find? name = some schema → Resolves defs schema) {schema : Schema} {value : Value}
    (hresolves : Resolves defs schema) (hvalue : IsJson value) (hclear : Clear defs schema value)
    (hrest : IsRest rest) :
    Decided o (rootJson root defs) (.object (schema.fields ++ rest)) value (V schema value) := by
  have hacc := acc_asks hguarded schema value
  generalize hp : (schema, value) = p at hacc
  induction hacc generalizing schema value rest with
  | intro p _ ih =>
    subst hp
    have hplain := hclear schema value .refl
    -- What is asked in turn is a schema on its own.
    have hasked : ∀ {schema' value'}, Asks defs (schema, value) (schema', value') → Resolves defs schema' →
        IsJson value' → Decided o (rootJson root defs) schema'.json value' (V schema' value') := by
      intro schema' value' hasks hresolves' hvalue'
      have := ih _ hasks hresolves' hvalue' (hclear.asks hasks) isRest_nil rfl
      rwa [List.append_nil] at this
    have hdirect : ∀ schema', Direct schema schema' →
        Decided o (rootJson root defs) schema'.json value (V schema' value) := fun schema' hdirect =>
      hasked (.direct hdirect) (hresolves.contains (.direct hdirect)) hvalue
    have hkeyword : ∀ {name value}, name ∈ keywords → schema.fields = [(units name, value)] →
        HasOnly (schema.fields ++ rest) name value := fun hname hfields => .of_fields hrest hname hfields
    rw [hV schema value]
    cases schema with
    | ref pointer =>
      obtain ⟨name, hname, hsome⟩ := hresolves pointer .refl
      obtain ⟨target, htarget⟩ := Option.isSome_iff_exists.mp hsome
      obtain rfl : name = pointer := Option.some.inj (hname.symm.trans hplain)
      have hclause : Clause defs V (.ref name) value ↔ V target value := by
        simp [Clause, hname, htarget]
      rw [hclause]
      exact decided_ref (hkeyword (by simp [keywords]) rfl) (definition_rootJson htarget)
        (hasked (.ref hname htarget) (hdefs name target htarget) hvalue)
    | anyOf schemas =>
      exact decided_anyOf (hkeyword (by simp [keywords]) rfl) fun schema' hmem => hdirect schema' (.anyOf hmem)
    | oneOf schemas =>
      exact decided_oneOf (hkeyword (by simp [keywords]) rfl) fun schema' hmem => hdirect schema' (.oneOf hmem)
    | allOf schemas =>
      exact decided_allOf (hkeyword (by simp [keywords]) rfl) fun schema' hmem => hdirect schema' (.allOf hmem)
    | enum scalars => exact decided_enum (hkeyword (by simp [keywords]) rfl) hplain
    | type name => exact decided_type hvalue (hkeyword (by simp [keywords]) rfl)
    | types names => exact decided_types hvalue (hkeyword (by simp [keywords]) rfl)
    | minLength n => exact decided_minLength (hkeyword (by simp [keywords]) rfl)
    | maxLength n => exact decided_maxLength (hkeyword (by simp [keywords]) rfl)
    | minimum n => exact decided_minimum (hkeyword (by simp [keywords]) rfl)
    | maximum n => exact decided_maximum (hkeyword (by simp [keywords]) rfl)
    | array items minItems maxItems =>
      have hmember : ∀ name ∈ keywords, _ = _ := fun name hname =>
        member_fields hrest hname (.array items minItems maxItems)
      refine decided_array (lacks_array hrest) ?_ ?_ ?_ ?_ hplain ?_
      · rw [hmember _ (by simp [keywords])]
        simp [Schema.fields]
      · rw [hmember _ (by simp [keywords])]
        cases items <;> simp [Schema.fields, jsonOption, units_inj, Schema.json]
      · rw [hmember _ (by simp [keywords])]
        cases items <;> simp [Schema.fields, jsonOption, units_inj]
      · rw [hmember _ (by simp [keywords])]
        cases items <;> simp [Schema.fields, jsonOption, units_inj]
      · intro schema' hschema' values hvalues hwithin item hitem
        obtain rfl := Option.mem_def.mp hschema'
        subst hvalues
        exact hasked (.item hwithin hitem) (hresolves.contains .items) (hvalue.item item hitem)
    | object properties required closed =>
      have hmember : ∀ name ∈ keywords, _ = _ := fun name hname =>
        member_fields hrest hname (.object properties required closed)
      refine decided_object (lacks_object hrest) ?_ ?_ ?_ ?_ hvalue hplain ?_
      · rw [hmember _ (by simp [keywords])]
        simp [Schema.fields]
      · rw [hmember _ (by simp [keywords])]
        cases properties <;> cases closed <;> simp [Schema.fields, jsonProperties, units_inj]
      · rw [hmember _ (by simp [keywords])]
        cases properties <;> cases closed <;> simp [Schema.fields, jsonProperties, units_inj]
      · rw [hmember _ (by simp [keywords])]
        cases properties <;> cases closed <;> simp [Schema.fields, jsonProperties, units_inj]
      · intro members hmembers key schema' hmem member hget
        subst hmembers
        exact hasked (.property hmem hget) (hresolves.contains (.property hmem)) (hvalue.get? hget)

/-! ## There is one validity -/

/-- A clause looks at what is asked in turn. -/
theorem Clause.congr {V V' : Schema → Value → Prop} {schema : Schema} {value : Value}
    (h : ∀ schema' value', Asks defs (schema, value) (schema', value') → (V schema' value' ↔ V' schema' value')) :
    Clause defs V schema value ↔ Clause defs V' schema value := by
  have hdirect : ∀ schema', Direct schema schema' → (V schema' value ↔ V' schema' value) :=
    fun schema' hmem => h schema' value (.direct hmem)
  cases schema with
  | ref pointer =>
    refine exists₂_congr fun name schema' => ?_
    exact and_congr_right fun hname => and_congr_right fun hfind => h schema' value (.ref hname hfind)
  | anyOf schemas =>
    exact exists_congr fun schema' => and_congr_right fun hmem => hdirect schema' (.anyOf hmem)
  | oneOf schemas =>
    refine exists_congr fun before => exists₂_congr fun schema' after => and_congr_right fun hschemas => ?_
    subst hschemas
    refine and_congr (hdirect schema' (.oneOf (by simp))) (forall₂_congr fun other hmem => not_congr ?_)
    refine hdirect other (.oneOf ?_)
    rw [List.mem_append] at hmem ⊢
    exact hmem.imp_right (List.mem_cons_of_mem _)
  | allOf schemas => exact forall₂_congr fun schema' hmem => hdirect schema' (.allOf hmem)
  | array items minItems maxItems =>
    refine exists_congr fun values => and_congr_right fun hvalue => and_congr_right fun hwithin => ?_
    refine forall₂_congr fun schema' hschema' => forall₂_congr fun item hitem => ?_
    obtain rfl := Option.mem_def.mp hschema'
    subst hvalue
    exact h schema' item (.item hwithin hitem)
  | object properties required closed =>
    refine exists_congr fun fields => and_congr_right fun hvalue => and_congr_right fun _ => and_congr_right fun _ => ?_
    refine forall₂_congr fun key schema' => forall_congr' fun hmem => forall₂_congr fun member hget => ?_
    subst hvalue
    exact h schema' member (.property hmem hget)
  | _ => exact Iff.rfl

/-- The values that are valid by each schema. -/
theorem exists_isValidity (h : ∀ name, ¬Relation.TransGen (Refers defs) name name) : ∃ V, IsValidity defs V := by
  have hwf : WellFounded fun p' p => Asks defs p p' := ⟨fun p => acc_asks h p.1 p.2⟩
  let valid : Schema × Value → Prop := hwf.fix fun p valid =>
    Clause defs (fun schema value => ∃ hasks : Asks defs p (schema, value), valid (schema, value) hasks) p.1 p.2
  refine ⟨fun schema value => valid (schema, value), fun schema value => ?_⟩
  have hfix : valid (schema, value) = _ := hwf.fix_eq _ (schema, value)
  refine (iff_of_eq hfix).trans (Clause.congr fun schema' value' hasks => ?_)
  exact ⟨fun hvalid => hvalid.2, fun hvalid => ⟨hasks, hvalid⟩⟩

theorem IsValidity.unique (h : ∀ name, ¬Relation.TransGen (Refers defs) name name) {V V' : Schema → Value → Prop}
    (hV : IsValidity defs V) (hV' : IsValidity defs V') (schema : Schema) (value : Value) :
    V schema value ↔ V' schema value := by
  have hacc := acc_asks h schema value
  generalize hp : (schema, value) = p at hacc
  induction hacc generalizing schema value with
  | intro p _ ih =>
    subst hp
    rw [hV schema value, hV' schema value]
    exact Clause.congr fun schema' value' hasks => ih _ hasks schema' value' rfl

/-- A list of objects. -/
def nodeSchema : Schema := .object (some [(units "next", .ref (units "node"))]) none true

def nodeDefs : Definitions := [(units "node", nodeSchema)]

theorem definitionOf_node : definitionOf (units "node") = some (units "node") := by decide +kernel

theorem nodeDefs_find? {name : Text} {schema : Schema} (h : nodeDefs.find? name = some schema) :
    schema = nodeSchema := by
  obtain ⟨e, he, rfl⟩ := Option.map_eq_some_iff.mp h
  have hmem := List.mem_of_find?_eq_some he
  rw [nodeDefs, List.mem_singleton] at hmem
  rw [hmem]

theorem contains_node {schema : Schema} (h : Contains nodeSchema schema) : schema = .ref (units "node") := by
  cases h with
  | direct hdirect => cases hdirect
  | property hmem => exact congrArg Prod.snd (List.mem_singleton.mp hmem)

theorem resolves_ref : Resolves nodeDefs (.ref (units "node")) := by
  intro pointer hreach
  rcases hreach.cases_head with heq | ⟨schema, hcontains, -⟩
  · cases heq
    exact ⟨units "node", definitionOf_node, rfl⟩
  · cases hcontains with
    | direct hdirect => cases hdirect

theorem wellFormed_node : WellFormed nodeDefs (.ref (units "node")) where
  resolves := resolves_ref
  resolvesDefs name schema hfind := by
    obtain rfl := nodeDefs_find? hfind
    intro pointer hreach
    rcases hreach.cases_head with heq | ⟨schema, hcontains, hreach⟩
    · cases heq
    · obtain rfl := contains_node hcontains
      exact resolves_ref pointer hreach
  guarded name hcycle := by
    obtain ⟨name', ⟨schema, pointer, hfind, hreach, -⟩, -⟩ := Relation.TransGen.head'_iff.mp hcycle
    obtain rfl := nodeDefs_find? hfind
    rcases hreach.cases_head with heq | ⟨schema, hdirect, -⟩
    · cases heq
    · cases hdirect

/-- A node with a node after it. -/
def twoNodes : Value := .object [(units "next", .object [])]

theorem clear_node : Clear nodeDefs (.ref (units "node")) twoNodes := by
  -- What is asked in turn are the two schemas, of the two nodes.
  have hasked : ∀ p, Relation.ReflTransGen (Asks nodeDefs) (.ref (units "node"), twoNodes) p →
      (p.1 = .ref (units "node") ∨ p.1 = nodeSchema) ∧ (p.2 = twoNodes ∨ p.2 = .object []) := by
    intro p hreach
    induction hreach with
    | refl => exact ⟨.inl rfl, .inl rfl⟩
    | @tail p p' _ hasks ih =>
      obtain ⟨schema, value⟩ := p
      obtain ⟨rfl | rfl, hvalue⟩ := ih
      · cases hasks with
        | ref _ hfind => exact ⟨.inr (nodeDefs_find? hfind), hvalue⟩
        | direct hdirect => cases hdirect
      · cases hasks with
        | direct hdirect => cases hdirect
        | property hmem hget =>
          refine ⟨.inl (congrArg Prod.snd (List.mem_singleton.mp hmem)), .inr ?_⟩
          rcases hvalue with heq | heq
          · cases heq
            have := mem_of_get? hget
            exact congrArg Prod.snd (List.mem_singleton.mp this)
          · cases heq
            cases hget
  intro schema value hreach
  obtain ⟨rfl | rfl, rfl | rfl⟩ := hasked _ hreach
  · exact definitionOf_node
  · exact definitionOf_node
  · have hinherited : inherited (units "next") = false := by decide +kernel
    simp [nodeSchema, twoNodes, Plain, keys, hinherited]
  · have hinherited : inherited (units "next") = false := by decide +kernel
    simp [nodeSchema, Plain, keys, hinherited]

/-- An object without properties. -/
def closedSchema : Schema := .object none none true

theorem wellFormed_closed : WellFormed [] closedSchema where
  resolves pointer hreach := by
    rcases hreach.cases_head with heq | ⟨schema, hcontains, -⟩
    · cases heq
    · cases hcontains with
      | direct hdirect => cases hdirect
      | property hmem => cases hmem
  resolvesDefs name schema hfind := by cases hfind
  guarded name hcycle := by
    obtain ⟨name', ⟨schema, pointer, hfind, -⟩, -⟩ := Relation.TransGen.head'_iff.mp hcycle
    cases hfind

end Opensteer.JsonSchema
