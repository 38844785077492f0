import Opensteer.IntegrationAdapters.JsonSchema

/-!
# What a schema means

Schemas of one keyword each, or of the keywords that belong together, and which values are valid by them:
the clauses of JSON Schema 2020-12, which `IsValidity` asks of a predicate. A reference is a URI fragment
that is a JSON Pointer; the definition it names is what the pointer spells.
-/

namespace Opensteer.JsonSchema

inductive TypeName
  | null | boolean | object | array | number | string | integer
deriving DecidableEq

def TypeName.text : TypeName → Text
  | .null => units "null"
  | .boolean => units "boolean"
  | .object => units "object"
  | .array => units "array"
  | .number => units "number"
  | .string => units "string"
  | .integer => units "integer"

inductive Scalar
  | null
  | bool (b : Bool)
  | number (n : Number)
  | string (text : Text)

def Scalar.json : Scalar → Value
  | .null => .null
  | .bool b => .bool b
  | .number n => .number n
  | .string text => .string text

inductive Schema
  /-- What comes after `#/$defs/`. -/
  | ref (pointer : Text)
  | anyOf (schemas : List Schema)
  | oneOf (schemas : List Schema)
  | allOf (schemas : List Schema)
  | enum (scalars : List Scalar)
  | type (name : TypeName)
  | types (names : List TypeName)
  | minLength (n : Nat)
  | maxLength (n : Nat)
  | minimum (n : Number)
  | maximum (n : Number)
  | array (items : Option Schema) (minItems maxItems : Option Nat)
  | object (properties : Option (List (Text × Schema))) (required : Option (List Text)) (closed : Bool)

def natural (n : Nat) : Value := .number (.of n)

/-- A keyword, if the schema has it. -/
def keyword (name : String) (value : Option Value) : Fields := (value.map (units name, ·)).toList

mutual
/-- The keywords of a schema. -/
def Schema.fields : Schema → Fields
  | .ref pointer => [(units "$ref", .string (units "#/$defs/" ++ pointer))]
  | .anyOf schemas => [(units "anyOf", .array (jsonList schemas))]
  | .oneOf schemas => [(units "oneOf", .array (jsonList schemas))]
  | .allOf schemas => [(units "allOf", .array (jsonList schemas))]
  | .enum scalars => [(units "enum", .array (scalars.map Scalar.json))]
  | .type name => [(units "type", .string name.text)]
  | .types names => [(units "type", .array (names.map fun name => .string name.text))]
  | .minLength n => [(units "minLength", natural n)]
  | .maxLength n => [(units "maxLength", natural n)]
  | .minimum n => [(units "minimum", .number n)]
  | .maximum n => [(units "maximum", .number n)]
  | .array items minItems maxItems =>
    (units "type", .string (units "array")) :: (jsonOption items ++ keyword "minItems" (minItems.map natural) ++
      keyword "maxItems" (maxItems.map natural))
  | .object properties required closed =>
    (units "type", .string (units "object")) :: jsonProperties properties ++
      keyword "required" (required.map fun names => .array (names.map .string)) ++
      if closed then [(units "additionalProperties", .bool false)] else []

def jsonOption : Option Schema → Fields
  | none => []
  | some schema => [(units "items", .object schema.fields)]

def jsonProperties : Option (List (Text × Schema)) → Fields
  | none => []
  | some properties => [(units "properties", .object (jsonFields properties))]

def jsonList : List Schema → List Value
  | [] => []
  | schema :: schemas => .object schema.fields :: jsonList schemas

def jsonFields : List (Text × Schema) → Fields
  | [] => []
  | (key, schema) :: properties => (key, .object schema.fields) :: jsonFields properties
end

def Schema.json (schema : Schema) : Value := .object schema.fields

abbrev Definitions := List (Text × Schema)

/-- A schema with the definitions. -/
def rootJson (schema : Schema) (defs : Definitions) : Value :=
  .object (schema.fields ++ [(units "$defs", .object (jsonFields defs))])

/-! ## References -/

def hexDigit (c : Char) : Option Nat :=
  if '0' ≤ c ∧ c ≤ '9' then some (c.toNat - 0x30)
  else if 'a' ≤ c ∧ c ≤ 'f' then some (c.toNat - 0x57)
  else if 'A' ≤ c ∧ c ≤ 'F' then some (c.toNat - 0x37)
  else none

/-- The bytes of a fragment. -/
def percentDecode : List Char → List UInt8
  | '%' :: high :: low :: rest =>
    match hexDigit high, hexDigit low with
    | some high, some low => UInt8.ofNat (16 * high + low) :: percentDecode rest
    | _, _ => String.utf8EncodeChar '%' ++ percentDecode (high :: low :: rest)
  | c :: rest => String.utf8EncodeChar c ++ percentDecode rest
  | [] => []

/-- One step of a JSON Pointer. -/
def unescape : List Char → Option (List Char)
  | '~' :: '0' :: rest => (unescape rest).map ('~' :: ·)
  | '~' :: '1' :: rest => (unescape rest).map ('/' :: ·)
  | '~' :: _ => none
  | '/' :: _ => none
  | c :: rest => (unescape rest).map (c :: ·)
  | [] => some []

/-- The name of the definition that a fragment refers to. -/
def definitionOf (pointer : Text) : Option Text :=
  ((Utf8.decode? (percentDecode (scalars pointer))).bind unescape).map ofScalars

/-- The definition of a name; of two with one name the first. -/
def Definitions.find? (defs : Definitions) (name : Text) : Option Schema :=
  (List.find? (fun e => e.1 = name) defs).map Prod.snd

/-! ## Validity -/

/-- Two values of a schema and of JSON that are equal as JSON. -/
def Scalar.Equals : Scalar → Value → Prop
  | .null, .null => True
  | .bool b, .bool b' => b = b'
  | .number n, .number n' => n.value = n'.value
  | .string text, .string text' => text = text'
  | _, _ => False

def HasType : TypeName → Value → Prop
  | .null, .null | .boolean, .bool _ | .object, .object _ | .array, .array _ | .number, .number _ |
    .string, .string _ => True
  | .integer, .number n => n.value.isInt
  | _, _ => False

def Within (minItems maxItems : Option Nat) (length : Nat) : Prop :=
  (∀ n ∈ minItems, n ≤ length) ∧ ∀ n ∈ maxItems, length ≤ n

/-- What each keyword asks, of the values that are valid by the schemas in it. -/
def Clause (defs : Definitions) (V : Schema → Value → Prop) : Schema → Value → Prop
  | .ref pointer, value =>
    ∃ name schema, definitionOf pointer = some name ∧ defs.find? name = some schema ∧ V schema value
  | .anyOf schemas, value => ∃ schema ∈ schemas, V schema value
  | .oneOf schemas, value => ∃ before schema after, schemas = before ++ schema :: after ∧ V schema value ∧
      ∀ other ∈ before ++ after, ¬V other value
  | .allOf schemas, value => ∀ schema ∈ schemas, V schema value
  | .enum scalars, value => ∃ scalar ∈ scalars, scalar.Equals value
  | .type name, value => HasType name value
  | .types names, value => ∃ name ∈ names, HasType name value
  | .minLength n, value => ∀ text, value = .string text → n ≤ text.length
  | .maxLength n, value => ∀ text, value = .string text → text.length ≤ n
  | .minimum n, value => ∀ number, value = .number number → n.value ≤ number.value
  | .maximum n, value => ∀ number, value = .number number → number.value ≤ n.value
  | .array items minItems maxItems, value => ∃ values, value = .array values ∧
      Within minItems maxItems values.length ∧ ∀ schema ∈ items, ∀ item ∈ values, V schema item
  | .object properties required closed, value => ∃ fields, value = .object fields ∧
      (∀ names ∈ required, ∀ name ∈ names, name ∈ keys fields) ∧
      (closed = true → ∀ key ∈ keys fields, key ∈ (properties.getD []).map Prod.fst) ∧
      ∀ key schema, (key, schema) ∈ properties.getD [] → ∀ member, get? fields key = some member → V schema member

/-- A predicate that is the validity of JSON Schema. -/
def IsValidity (defs : Definitions) (V : Schema → Value → Prop) : Prop :=
  ∀ schema value, V schema value ↔ Clause defs V schema value

/-- A value of JSON. -/
inductive IsJson : Value → Prop
  | null : IsJson .null
  | bool (b : Bool) : IsJson (.bool b)
  | number (n : Number) : IsJson (.number n)
  | string (text : Text) : IsJson (.string text)
  | array {items : List Value} : (∀ item ∈ items, IsJson item) → IsJson (.array items)
  | object {fields : Fields} : (∀ e ∈ fields, IsJson e.2) → IsJson (.object fields)

/-! ## Which schemas are meant -/

/-- A schema in another that is asked of the same value. -/
inductive Direct : Schema → Schema → Prop
  | anyOf {schemas : List Schema} {schema : Schema} : schema ∈ schemas → Direct (.anyOf schemas) schema
  | oneOf {schemas : List Schema} {schema : Schema} : schema ∈ schemas → Direct (.oneOf schemas) schema
  | allOf {schemas : List Schema} {schema : Schema} : schema ∈ schemas → Direct (.allOf schemas) schema

/-- A schema in another. -/
inductive Contains : Schema → Schema → Prop
  | direct {schema schema' : Schema} : Direct schema schema' → Contains schema schema'
  | items {schema : Schema} {minItems maxItems : Option Nat} :
      Contains (.array (some schema) minItems maxItems) schema
  | property {properties : Option (List (Text × Schema))} {required : Option (List Text)} {closed : Bool} {key : Text}
      {schema : Schema} : (key, schema) ∈ properties.getD [] → Contains (.object properties required closed) schema

/-- A definition asks another of the same value. -/
def Refers (defs : Definitions) (name name' : Text) : Prop :=
  ∃ schema pointer, defs.find? name = some schema ∧
    Relation.ReflTransGen Direct schema (.ref pointer) ∧ definitionOf pointer = some name'

/-- Every reference in a schema is to a definition. -/
def Resolves (defs : Definitions) (schema : Schema) : Prop :=
  ∀ pointer, Relation.ReflTransGen Contains schema (.ref pointer) →
    ∃ name, definitionOf pointer = some name ∧ (defs.find? name).isSome

/-- References are to definitions, and every cycle of them goes through properties or items. -/
structure WellFormed (defs : Definitions) (schema : Schema) : Prop where
  resolves : Resolves defs schema
  resolvesDefs : ∀ name schema, defs.find? name = some schema → Resolves defs schema
  guarded : ∀ name, ¬Relation.TransGen (Refers defs) name name

/-! ## Which inputs meet the defects -/

/-- A schema that is asked of a value, and one that is asked of it or a part of it in turn. -/
inductive Asks (defs : Definitions) : Schema × Value → Schema × Value → Prop
  | ref {pointer name : Text} {schema : Schema} {value : Value} : definitionOf pointer = some name →
      defs.find? name = some schema → Asks defs (.ref pointer, value) (schema, value)
  | direct {schema schema' : Schema} {value : Value} : Direct schema schema' →
      Asks defs (schema, value) (schema', value)
  | item {schema : Schema} {minItems maxItems : Option Nat} {items : List Value} {item : Value} :
      Within minItems maxItems items.length → item ∈ items →
      Asks defs (.array (some schema) minItems maxItems, .array items) (schema, item)
  | property {properties : Option (List (Text × Schema))} {required : Option (List Text)} {closed : Bool}
      {fields : Fields} {key : Text} {schema : Schema} {member : Value} : (key, schema) ∈ properties.getD [] →
      get? fields key = some member →
      Asks defs (.object properties required closed, .object fields) (schema, member)

/-- A schema does not meet a defect at a value: a reference is spelled as its name, zeros have the sign
they are compared with, a bound on items comes with their schema, and no name that is inherited is
required, declared or there without being there, required or declared for itself. -/
def Plain : Schema → Value → Prop
  | .ref pointer, _ => definitionOf pointer = some pointer
  | .enum scalars, .number n => ∀ n', .number n' ∈ scalars → n'.value = n.value → n' = n
  | .array none minItems maxItems, .array items => Within minItems maxItems items.length
  | .object properties required closed, .object fields =>
    (∀ names ∈ required, ∀ name ∈ names, inherited name → name ∈ keys fields) ∧
      (closed = true → ∀ key ∈ keys fields, inherited key → key ∈ (properties.getD []).map Prod.fst) ∧
      ∀ key ∈ (properties.getD []).map Prod.fst, inherited key → key ∈ keys fields
  | _, _ => True

/-- No defect is met on the way. -/
def Clear (defs : Definitions) (schema : Schema) (value : Value) : Prop :=
  ∀ schema' value', Relation.ReflTransGen (Asks defs) (schema, value) (schema', value') →
    Plain schema' value'

end Opensteer.JsonSchema
