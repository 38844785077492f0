import Opensteer.Core.Coding
import Opensteer.Framework.Decimal

/-!
# Checking a value against a JSON schema

`validateJsonSchema`, on the values of the language: a member that a record does not have is looked up on
the prototype of objects, whose methods are functions and whose own prototype is null. What is outside the
model (how a value is spelled in a message, and the patterns of a schema) is in `Outside`. How deep the
schemas are followed is bounded by `fuel`.
-/

namespace Opensteer.JsonSchema

/-- A number that is finite. -/
inductive Number
  | of (value : Rat)
  | negativeZero
deriving DecidableEq

def Number.value : Number → Rat
  | .of value => value
  | .negativeZero => 0

inductive Value
  | null
  | bool (b : Bool)
  | number (n : Number)
  | string (text : Text)
  | array (items : List Value)
  | object (fields : List (Text × Value))
  /-- A method of the prototype of objects. -/
  | function
  /-- The prototype of objects. -/
  | prototype

abbrev Fields := List (Text × Value)

def get? (fields : Fields) (key : Text) : Option Value := (fields.find? fun e => e.1 = key).map Prod.snd

def keys (fields : Fields) : List Text := fields.map Prod.fst

/-- The methods of the prototype of objects. -/
def methods : List Text :=
  [units "constructor", units "__defineGetter__", units "__defineSetter__", units "hasOwnProperty",
    units "__lookupGetter__", units "__lookupSetter__", units "isPrototypeOf", units "propertyIsEnumerable",
    units "toString", units "valueOf", units "toLocaleString"]

/-- The member that gives an object's prototype. -/
def proto : Text := units "__proto__"

/-- The names that are found on an object that does not have them. -/
def inherited (key : Text) : Bool := key ∈ methods || key = proto

inductive Record
  | own (fields : Fields)
  | prototype

/-- `record[key]`, where there is one. -/
def Record.member : Record → Text → Option Value
  | .own fields, key =>
    (get? fields key).or (if key ∈ methods then some .function else if key = proto then some .prototype else none)
  | .prototype, key => if key ∈ methods then some .function else if key = proto then some .null else none

/-- `Object.keys(record)` -/
def Record.keys : Record → List Text
  | .own fields => JsonSchema.keys fields
  | .prototype => []

def Record.entries : Record → Fields
  | .own fields => fields
  | .prototype => []

def asRecord : Value → Option Record
  | .object fields => some (.own fields)
  | .prototype => some .prototype
  | _ => none

def truthy : Value → Bool
  | .null | .bool false | .string [] => false
  | .number n => n.value ≠ 0
  | _ => true

/-- `Object.is`, of a value of a schema and another. -/
def identical : Value → Value → Bool
  | .null, .null => true
  | .bool b, .bool b' => b = b'
  | .number n, .number n' => n = n'
  | .string text, .string text' => text = text'
  | _, _ => false

def typeOf : Value → Text
  | .bool _ => units "boolean"
  | .number _ => units "number"
  | .string _ => units "string"
  | .function => units "function"
  | .null | .array _ | .object _ | .prototype => units "object"

structure JsonSchemaIssue where
  message : Text
  path : Text

/-- How a value is spelled in a message, and whether a text matches a pattern. -/
structure Outside where
  spelled : Value → Text
  test : Text → Text → Bool

/-- `permits`, of a type that is not left out. -/
def permits (value type : Value) : Bool :=
  match type with
  | .string type =>
    if type = units "null" then (match value with | .null => true | _ => false)
    else if type = units "array" then (match value with | .array _ => true | _ => false)
    else if type = units "object" then (asRecord value).isSome
    else if type = units "integer" then (match value with | .number n => n.value.isInt | _ => false)
    else typeOf value = type
  | _ => false

section

variable (o : Outside) (record : Record) (path : Text)

/-- A bound that a schema sets, if it is a number. -/
def bound (keyword : String) : Option Number :=
  match record.member (units keyword) with
  | some (.number n) => some n
  | _ => none

/-- The one issue of a bound that is broken. -/
def broken (keyword before after : String) (breaks : Rat → Bool) : Option (List JsonSchemaIssue) :=
  (bound record keyword).bind fun n =>
    if breaks n.value then some [{ path, message := units before ++ o.spelled (.number n) ++ units after }]
    else none

def checkEnum (value : Value) : Option (List JsonSchemaIssue) :=
  match record.member (units "enum") with
  | some (.array entries) =>
    if entries.any (identical · value) then none
    else some [{ path, message := units "must be one of the allowed values" }]
  | _ => none

def checkType (value : Value) : Option (List JsonSchemaIssue) :=
  let types :=
    match record.member (units "type") with
    | some (.array types) => some types
    | some type => some [type]
    | none => none
  types.bind fun types =>
    if types.any (permits value) then none
    else some [{ path, message := units "must have type " ++ (units " or ").intercalate (types.map o.spelled) }]

def checkText (text : Text) : Option (List JsonSchemaIssue) :=
  (broken o record path "minLength" "must contain at least " " characters" fun n => text.length < n).or <|
    (broken o record path "maxLength" "must contain at most " " characters" fun n => n < text.length).or <|
      match record.member (units "pattern") with
      | some (.string pattern) =>
        if o.test pattern text then none else some [{ path, message := units "must match " ++ pattern }]
      | _ => none

def checkNumber (number : Number) : Option (List JsonSchemaIssue) :=
  (broken o record path "minimum" "must be at least " "" fun n => number.value < n).or <|
    broken o record path "maximum" "must be at most " "" fun n => n < number.value

/-- The checks that look at the value alone, in their order; the first that fails is what is returned. -/
def checkValue (value : Value) : Option (List JsonSchemaIssue) :=
  (checkEnum record path value).or <| (checkType o record path value).or <|
    match value with
    | .string text => checkText o record path text
    | .number number => checkNumber o record path number
    | _ => none

/-- The bounds on an array, of a schema with items. -/
def checkItems (items : List Value) : Option (List JsonSchemaIssue) :=
  (broken o record path "minItems" "must contain at least " " items" fun n => items.length < n).or <|
    broken o record path "maxItems" "must contain at most " " items" fun n => n < items.length

def checkRequired (value : Record) : List JsonSchemaIssue :=
  match record.member (units "required") with
  | some (.array required) => required.flatMap fun
    | .string key =>
      if (value.member key).isSome then []
      else [{ path := path ++ units "." ++ key, message := units "is required" }]
    | _ => []
  | _ => []

/-- `asRecord(record.properties) ?? {}` -/
def propertiesOf : Record := ((record.member (units "properties")).bind asRecord).getD (.own [])

def checkAdditional (value : Record) : List JsonSchemaIssue :=
  match record.member (units "additionalProperties") with
  | some (.bool false) => value.keys.flatMap fun key =>
    if ((propertiesOf record).member key).isSome then []
    else [{ path := path ++ units "." ++ key, message := units "is not allowed" }]
  | _ => []

end

/-- What is returned by a check, or else by the checks after it. -/
def andThen (check : Option (Option (List JsonSchemaIssue))) (rest : Option (List JsonSchemaIssue)) :
    Option (List JsonSchemaIssue) :=
  check.bind fun
    | some issues => some issues
    | none => rest

/-- What a schema refers to in the root's definitions. -/
def referenced (record : Record) : Option Text :=
  match record.member (units "$ref") with
  | some (.string ref) =>
    if (units "#/$defs/").isPrefixOf ref then some (ref.drop (units "#/$defs/").length) else none
  | _ => none

def definition (root : Value) (name : Text) : Option Value :=
  (((asRecord root).bind (·.member (units "$defs"))).bind asRecord).bind (·.member name)

/-- The schemas that a keyword lists. -/
def listed (record : Record) (keyword : String) : Option (List Value) :=
  match record.member (units keyword) with
  | some (.array entries) => some entries
  | _ => none

/-- `record.type === name` -/
def isType (record : Record) (name : String) : Bool :=
  match record.member (units "type") with
  | some (.string type) => type = units name
  | _ => false

section

-- `validate` checks a part of the value, or the value by another schema.
variable (o : Outside) (validate : Value → Value → Text → Option (List JsonSchemaIssue)) (record : Record)
  (value : Value) (path : Text)

/-- What the schemas that a keyword lists make of the value. -/
def alternatives (keyword : String) (issue : List (List JsonSchemaIssue) → Option (List JsonSchemaIssue)) :
    Option (Option (List JsonSchemaIssue)) :=
  match listed record keyword with
  | some entries => (entries.mapM fun entry => validate entry value path).map issue
  | none => some none

def checkAnyOf : Option (Option (List JsonSchemaIssue)) :=
  alternatives validate record value path "anyOf" fun issues =>
    if issues.any List.isEmpty then none else some [{ path, message := units "must match an allowed schema" }]

def checkOneOf : Option (Option (List JsonSchemaIssue)) :=
  alternatives validate record value path "oneOf" fun issues =>
    if issues.countP List.isEmpty = 1 then none
    else some [{ path, message := units "must match exactly one allowed schema" }]

def checkAllOf : Option (Option (List JsonSchemaIssue)) :=
  alternatives validate record value path "allOf" fun issues =>
    if issues.flatten.isEmpty then none else some issues.flatten

/-- The properties of a schema that the value has. -/
def checkProperties (objectValue : Record) : Option (List JsonSchemaIssue) :=
  ((propertiesOf record).entries.mapM fun (key, propertySchema) =>
    match objectValue.member key with
    | some member => validate propertySchema member (path ++ units "." ++ key)
    | none => some []).map List.flatten

/-- The items of an array, or else the members of an object. -/
def checkParts : Option (List JsonSchemaIssue) :=
  match if isType record "array" then record.member (units "items") else none, value with
  | some itemSchema, .array items =>
    andThen (some (checkItems o record path items)) <|
      (items.zipIdx.mapM fun (entry, index) =>
        validate itemSchema entry (path ++ units "[" ++ Decimal.spell index ++ units "]")).map List.flatten
  | _, _ =>
    match if isType record "object" then asRecord value else none with
    | some objectValue =>
      (checkProperties validate record path objectValue).map fun issues =>
        checkRequired record path objectValue ++ checkAdditional record path objectValue ++ issues
    | none => some []

end

def validateJsonSchema (o : Outside) : Nat → Value → Value → Value → Text → Option (List JsonSchemaIssue)
  | 0, _, _, _, _ => none
  | fuel + 1, schema, value, root, path =>
    match asRecord schema with
    | none => some []
    | some record =>
      match referenced record with
      | some name =>
        match definition root name with
        | some target => if truthy target then validateJsonSchema o fuel target value root path else some []
        | none => some []
      | none =>
        let validate schema value path := validateJsonSchema o fuel schema value root path
        andThen (checkAnyOf validate record value path) <|
          andThen (checkOneOf validate record value path) <|
            andThen (checkAllOf validate record value path) <|
              andThen (some (checkValue o record path value)) <| checkParts o validate record value path

end Opensteer.JsonSchema
